import Mathlib.Algebra.Group.Action.Defs
import Resch.Proof.EdfWmLoops
import Resch.Proof.SortRuntime

/-!
# What the CPUs can offer to a split task

`split` asks the CPUs one after the other, for a number of windows, what they can bear.

* `view`, `offers_view`: what a CPU offers does not depend on what the ones before it have.
* `offers_room`: it is the room that it has before any of them is asked, if no subtraction wraps.
-/

namespace Resch.Checked.EdfWm

open Lib

variable {c : Config} {s s' s₁ : EdfWm} {rt cpu k x E num fuel : ℕ} {offer : ℕ → ℕ}

/-! ## One CPU after the other -/

/-- What the functions on a CPU read of a state -/
def view (s : EdfWm) (cpu : ℕ) : EdfWm :=
  { s with edfWmTask := fun p =>
      ⟨0, 0, none, (s.edfWmTask p).deadline, fun _ => (s.edfWmTask p).runtime cpu⟩ }

theorem view_of_same (h : SameBut rt s s₁)
    (hrt : (s₁.edfWmTask rt).runtime cpu = (s.edfWmTask rt).runtime cpu) :
    view s₁ cpu = view s cpu := by
  unfold view
  rw [h.toTaskSet]
  congr 1
  funext p
  by_cases hp : p = rt
  · rw [hp, hrt, h.deadline]
  · rw [h.other p hp]

theorem lenOf_view (c : Config) (s : EdfWm) (rt cpu x : ℕ) :
    lenOf c (view s cpu) rt cpu x = lenOf c s rt cpu x := by
  have hset : view (setRuntime (view s cpu) rt cpu x) cpu = view (setRuntime s rt cpu x) cpu := by
    unfold view
    congr 1
    funext p
    by_cases hp : p = rt
    · subst hp
      rw [runtime_setRuntime, runtime_setRuntime, (setRuntime_same _ p cpu x).deadline,
        (setRuntime_same _ p cpu x).deadline]
    · have hother : ∀ s : EdfWm, (setRuntime s rt cpu x).edfWmTask p = s.edfWmTask p :=
        fun s => Function.update_of_ne hp ..
      rw [hother, hother]
  show testLen c ((view (setRuntime (view s cpu) rt cpu x) cpu).candidates c cpu rt) = _
  rw [hset]
  rfl

theorem lookedAt_view (c : Config) (s : EdfWm) (rt cpu E : ℕ) :
    lookedAt c (view s cpu) rt cpu E = lookedAt c s rt cpu E := by
  unfold lookedAt
  rw [lenOf_view]
  rfl

theorem sound_view (Ls : List ℕ) : Sound c (view s cpu) rt cpu Ls ↔ Sound c s rt cpu Ls := by
  induction Ls with
  | nil => exact Iff.rfl
  | cons L Ls ih =>
    rw [Sound, Sound, ih]
    exact Iff.rfl

theorem room_of_view (h : view s₁ cpu = view s cpu) : room c s₁ rt cpu E = room c s rt cpu E := by
  have hview : ∀ s, room c (view s cpu) rt cpu E = room c s rt cpu E := by
    intro s
    unfold room
    rw [lookedAt_view]
    rfl
  rw [← hview s₁, h, hview]

theorem WrapFree.of_view (h : view s₁ cpu = view s cpu) (hs : WrapFree c s rt cpu E) :
    WrapFree c s₁ rt cpu E := by
  have hto : WrapFree c (view s cpu) rt cpu E := by
    refine ⟨hs.percents, ?_, hs.constrained⟩
    rw [lookedAt_view, sound_view]
    exact hs.sound
  rw [← h] at hto
  refine ⟨hto.percents, ?_, hto.constrained⟩
  rw [← lookedAt_view, ← sound_view]
  exact hto.sound

theorem InRange.of_view (h : view s₁ cpu = view s cpu) (hs : InRange c s rt cpu E) :
    InRange c s₁ rt cpu E := by
  have hto : InRange c (view s cpu) rt cpu E := by
    refine ⟨hs.tightens, fun x hpos hx => ?_, fun q hq => ?_, fun L hL => hs.sums L ?_⟩
    · rw [lenOf_view, lenOf_view]
      exact hs.len x hpos hx
    · rw [lenOf_view]
      exact hs.steps q hq
    · rwa [lenOf_view] at hL
  rw [← h] at hto
  refine ⟨hto.tightens, fun x hpos hx => ?_, fun q hq => ?_, fun L hL => hto.sums L ?_⟩
  · rw [← lenOf_view, ← lenOf_view c s₁ rt cpu 1]
    exact hto.len x hpos hx
  · rw [← lenOf_view]
    exact hto.steps q hq
  · rwa [← lenOf_view] at hL

/-- The shares of the other CPUs stay. -/
theorem runtime_setRuntime_of_ne (h : k ≠ cpu) :
    ((setRuntime s rt cpu x).edfWmTask rt).runtime k = (s.edfWmTask rt).runtime k := by
  unfold setRuntime
  rw [setEdfWmTask_self]
  exact Function.update_of_ne h ..

/-- The offers of the CPUs up to `m` -/
theorem foldlM_offers (hshare : ∀ k, (s.edfWmTask rt).runtime k = 0) : ∀ (m : ℕ) (s' : EdfWm),
    (List.range m).foldlM (fun s cpu => setSplitRuntime c s rt cpu fuel) s = .ok s' →
      (∀ k, m ≤ k → (s'.edfWmTask rt).runtime k = 0) ∧
      ∀ k < m, ∃ s₁ s₂, (List.range k).foldlM (fun s cpu => setSplitRuntime c s rt cpu fuel) s =
          .ok s₁ ∧ setSplitRuntime c s₁ rt k fuel = .ok s₂ ∧ view s₁ k = view s k ∧
        (s₁.edfWmTask rt).runtime k = 0 ∧
          (s₂.edfWmTask rt).runtime k = (s'.edfWmTask rt).runtime k := by
  intro m
  induction m with
  | zero =>
    intro s' h
    cases h
    exact ⟨fun k _ => hshare k, fun k hk => absurd hk (Nat.not_lt_zero k)⟩
  | succ m ih =>
    intro s' h
    rw [List.range_succ, List.foldlM_append] at h
    obtain ⟨s₁, h₁, h⟩ := bind_eq_ok.1 h
    obtain ⟨hzero, hall⟩ := ih s₁ h₁
    rw [List.foldlM_cons] at h
    obtain ⟨s₂, h₂, h⟩ := bind_eq_ok.1 h
    cases h
    have hm := hzero m le_rfl
    obtain ⟨u, hu, -⟩ := bind_eq_ok.1 h₂
    obtain ⟨b, r, -, rfl⟩ := setSplitRuntime_lowered hm hu h₂
    refine ⟨fun k hk => ?_, fun k hk => ?_⟩
    · rw [runtime_setRuntime_of_ne (by omega)]
      exact hzero k (by omega)
    · rcases Nat.lt_succ_iff_lt_or_eq.1 hk with hlt | rfl
      · obtain ⟨t, t', ht, ht', hview, ht0, heq⟩ := hall k hlt
        refine ⟨t, t', ht, ht', hview, ht0, heq.trans ?_⟩
        rw [runtime_setRuntime_of_ne hlt.ne]
      · refine ⟨s₁, _, h₁, h₂, view_of_same (foldlM_same _ _ _ h₁) ?_, hm, rfl⟩
        rw [hm, hshare]

theorem runtime_withWindow (hs : s.edfWmTask rt = EdfWmTask.clear c) (k : ℕ) :
    ((withWindow s rt num).edfWmTask rt).runtime k = 0 := by
  unfold withWindow
  rw [setEdfWmTask_self, hs]
  rfl

/-- **What a CPU offers** is what it offers as the first one that is asked. -/
theorem offers_view (hs : s.edfWmTask rt = EdfWmTask.clear c)
    (h : offers c s rt fuel num = .ok offer) (hk : k < c.nrRtCpus) :
    ∃ s₁ s₂, (List.range k).foldlM (fun s cpu => setSplitRuntime c s rt cpu fuel)
        (withWindow s rt num) = .ok s₁ ∧ setSplitRuntime c s₁ rt k fuel = .ok s₂ ∧
      view s₁ k = view (withWindow s rt num) k ∧ (s₁.edfWmTask rt).runtime k = 0 ∧
      (s₂.edfWmTask rt).runtime k = offer k := by
  obtain ⟨s', hs', rfl, -⟩ := offers_ok h
  exact (foldlM_offers (runtime_withWindow hs) c.nrRtCpus s' hs').2 k hk

/-- **The offers are the rooms** that the CPUs have, as far as no subtraction wraps, and where one
wraps can be told from the parameters. -/
theorem offers_room (hs : s.edfWmTask rt = EdfWmTask.clear c)
    (h : offers c s rt fuel num = .ok offer) (hk : k < c.nrRtCpus)
    (hin : InRange c (withWindow s rt num) rt k E) :
    ((∀ s₁, (List.range k).foldlM (fun s cpu => setSplitRuntime c s rt cpu fuel)
        (withWindow s rt num) = .ok s₁ → ShareExact c s₁ rt k fuel) ↔
      WrapFree c (withWindow s rt num) rt k E) ∧
    (WrapFree c (withWindow s rt num) rt k E → offer k = room c (withWindow s rt num) rt k E) := by
  obtain ⟨s₁, s₂, h₁, h₂, hview, hzero, hoffer⟩ := offers_view hs h hk
  obtain ⟨hiff, hroom⟩ := (hin.of_view hview).setSplitRuntime_spec hzero h₂
  constructor
  · rw [h₁]
    simp only [Except.ok.injEq, forall_eq']
    rw [hiff]
    exact ⟨fun hn => hn.of_view hview.symm, fun hn => hn.of_view hview⟩
  · intro hn
    rw [← hoffer, hroom (hn.of_view hview), room_of_view hview]

/-! ## The CPUs with the most room -/

/-- The CPUs with the `n` largest numbers, the first ones where numbers are equal -/
def largest (c : Config) (f : ℕ → ℕ) (n : ℕ) : Finset ℕ :=
  (Finset.range c.nrRtCpus).filter fun k =>
    ((Finset.range c.nrRtCpus).filter fun j => Before f j k).card < n

theorem mem_chosen_iff {f : ℕ → ℕ} : k ∈ chosen c num f ↔ k ∈ largest c f num := by
  have hperm := sortRuntime_perm c f
  have hcard : ((Finset.range c.nrRtCpus).filter fun j => Before f j k).card =
      ((sortRuntime c f).filter fun j => decide (Before f j k)).length :=
    (hperm.filter _).length_eq.symm
  unfold largest chosen
  rw [Finset.mem_filter, Finset.mem_range, hcard]
  constructor
  · intro h
    have hmem := List.mem_of_mem_take h
    exact ⟨List.mem_range.1 (hperm.mem_iff.1 hmem),
      (mem_take_iff before_asymm (sortRuntime_pairwise c f) hmem).1 h⟩
  · rintro ⟨hk, h⟩
    exact (mem_take_iff before_asymm (sortRuntime_pairwise c f)
      (hperm.mem_iff.2 (List.mem_range.2 hk))).2 h

theorem largest_congr {f g : ℕ → ℕ} (h : ∀ k < c.nrRtCpus, f k = g k) :
    largest c f num = largest c g num := by
  have hbefore : ∀ k < c.nrRtCpus, ∀ j < c.nrRtCpus, Before f j k ↔ Before g j k := by
    intro k hk j hj
    unfold Before
    rw [h k hk, h j hj]
  refine Finset.filter_congr fun k hk => ?_
  have hset : ((Finset.range c.nrRtCpus).filter fun j => Before f j k) =
      (Finset.range c.nrRtCpus).filter fun j => Before g j k :=
    Finset.filter_congr fun j hj => hbefore k (Finset.mem_range.1 hk) j (Finset.mem_range.1 hj)
  rw [hset]

/-- The shares are no more than the deadline. -/
theorem sum_share_le (hnum : num ≤ c.nrRtCpus) :
    ((chosen c num offer).map (share s rt num offer)).sum ≤ (s.task rt).deadline := by
  have hle := List.sum_le_card_nsmul ((chosen c num offer).map (share s rt num offer))
    ((s.task rt).deadline / num) fun x hx => by
      obtain ⟨k, -, rfl⟩ := List.mem_map.1 hx
      exact min_le_right _ _
  rw [List.length_map, length_chosen hnum, smul_eq_mul] at hle
  exact hle.trans (Nat.mul_div_le _ _)

theorem shareSum_eq (hnum : num ≤ c.nrRtCpus) (hD : (s.task rt).deadline < 2 ^ 64) :
    shareSum c s rt num offer = ((chosen c num offer).map (share s rt num offer)).sum :=
  Nat.mod_eq_of_lt ((sum_share_le hnum).trans_lt hD)

/-! ## The number of windows -/

/-- The room of a CPU for one of `n` windows; `E` is where the first loops tighten. -/
def roomFor (c : Config) (s : EdfWm) (rt : ℕ) (E : ℕ → ℕ → ℕ) (n k : ℕ) : ℕ :=
  room c (withWindow s rt n) rt k (E n k)

/-- The CPUs that are to bear a task in `n` windows -/
def bearers (c : Config) (s : EdfWm) (rt : ℕ) (E : ℕ → ℕ → ℕ) (n : ℕ) : Finset ℕ :=
  largest c (roomFor c s rt E n) n

/-- What each of them is to bear: what it has room for, a window at most -/
def burden (c : Config) (s : EdfWm) (rt : ℕ) (E : ℕ → ℕ → ℕ) (n k : ℕ) : ℕ :=
  min (roomFor c s rt E n k) ((s.task rt).deadline / n)

/-- They can bear the whole task. -/
def Suffices (c : Config) (s : EdfWm) (rt : ℕ) (E : ℕ → ℕ → ℕ) (n : ℕ) : Prop :=
  (s.task rt).C c ≤ c.usecPerTick * ∑ k ∈ bearers c s rt E n, burden c s rt E n k

/-- Fewer windows than `n` do not suffice. -/
def ComesTo (c : Config) (s : EdfWm) (rt : ℕ) (E : ℕ → ℕ → ℕ) (n : ℕ) : Prop :=
  2 ≤ n ∧ n ≤ c.nrRtCpus ∧ ∀ j, 2 ≤ j → j < n → ¬ Suffices c s rt E j

/-- No sum goes out of range. -/
structure SplitInRange (c : Config) (s : EdfWm) (rt : ℕ) (E : ℕ → ℕ → ℕ) : Prop where
  usecs : c.usecPerTick * (s.task rt).deadline < 2 ^ 32
  cpus : ∀ n, ComesTo c s rt E n → ∀ k < c.nrRtCpus, InRange c (withWindow s rt n) rt k (E n k)

variable {Es : ℕ → ℕ → ℕ}

/-- No subtraction wraps on any CPU. -/
def NoneWraps (c : Config) (s : EdfWm) (rt : ℕ) (E : ℕ → ℕ → ℕ) (n : ℕ) : Prop :=
  ∀ k < c.nrRtCpus, WrapFree c (withWindow s rt n) rt k (E n k)

theorem SplitInRange.deadline_lt (h : SplitInRange c s rt Es) : (s.task rt).deadline < 2 ^ 32 :=
  (Nat.le_mul_of_pos_left _ c.tick_pos).trans_lt h.usecs

theorem SplitInRange.shareSum_lt (h : SplitInRange c s rt Es) (hnum : num ≤ c.nrRtCpus) :
    c.usecPerTick * shareSum c s rt num offer < 2 ^ 32 := by
  have hD := h.deadline_lt
  rw [shareSum_eq hnum (by omega)]
  exact (Nat.mul_le_mul_left _ (sum_share_le hnum)).trans_lt h.usecs

/-- Offers are rooms for the windows that `split` comes to. -/
theorem SplitInRange.offer_eq (h : SplitInRange c s rt Es) (hs : s.edfWmTask rt = EdfWmTask.clear c)
    (hnum : ComesTo c s rt Es num) (hnone : NoneWraps c s rt Es num)
    (hoffer : offers c s rt fuel num = .ok offer) (hk : k < c.nrRtCpus) :
    offer k = roomFor c s rt Es num k :=
  (offers_room hs hoffer hk (h.cpus num hnum k hk)).2 (hnone k hk)

theorem mem_bearers_iff (hoffer : ∀ k < c.nrRtCpus, offer k = roomFor c s rt Es num k) :
    k ∈ chosen c num offer ↔ k ∈ bearers c s rt Es num := by
  rw [mem_chosen_iff, largest_congr hoffer]
  rfl

theorem share_eq_burden (hoffer : ∀ k < c.nrRtCpus, offer k = roomFor c s rt Es num k)
    (hk : k < c.nrRtCpus) : share s rt num offer k = burden c s rt Es num k := by
  unfold share burden
  rw [hoffer k hk]

theorem sum_chosen (hoffer : ∀ k < c.nrRtCpus, offer k = roomFor c s rt Es num k) :
    ((chosen c num offer).map (share s rt num offer)).sum =
      ∑ k ∈ bearers c s rt Es num, burden c s rt Es num k := by
  have hset : (chosen c num offer).toFinset = bearers c s rt Es num := by
    ext k
    rw [List.mem_toFinset, mem_bearers_iff hoffer]
  rw [← List.sum_toFinset _ (chosen_nodup c num offer), hset]
  exact Finset.sum_congr rfl fun k hk =>
    share_eq_burden hoffer (Finset.mem_range.1 (Finset.mem_filter.1 hk).1)

/-- The shares are enough iff the rooms are. -/
theorem SplitInRange.enough_iff (h : SplitInRange c s rt Es) (hnum : num ≤ c.nrRtCpus)
    (hoffer : ∀ k < c.nrRtCpus, offer k = roomFor c s rt Es num k) :
    Enough c s rt num offer ↔ Suffices c s rt Es num := by
  have hlt : c.usecPerTick * shareSum c s rt num offer < 2 ^ 32 := h.shareSum_lt hnum
  have hD := h.deadline_lt
  unfold Enough Suffices Config.usecs Config.jiffiesToUsecs
  rw [Nat.mod_eq_of_lt hlt, shareSum_eq hnum (by omega), sum_chosen hoffer]

/-- `split` comes to all numbers of windows up to the first one that is enough. -/
theorem SplitInRange.comesTo (h : SplitInRange c s rt Es) (hs : s.edfWmTask rt = EdfWmTask.clear c)
    (hfirst : FirstEnough c s rt fuel num offer)
    (hnone : ∀ n ≤ num, ComesTo c s rt Es n → NoneWraps c s rt Es n) (n : ℕ) (htwo : 2 ≤ n)
    (hle : n ≤ num) : ComesTo c s rt Es n := by
  induction n using Nat.strong_induction_on with
  | _ n ih =>
    refine ⟨htwo, hle.trans hfirst.le, fun j hj hlt hsuf => ?_⟩
    obtain ⟨offer', hoffer, hno⟩ := hfirst.fails j hj (hlt.trans_le hle)
    have hcomes := ih j hlt hj (hlt.le.trans hle)
    have hnone' := hnone j (hlt.le.trans hle) hcomes
    exact hno ((h.enough_iff hcomes.2.1 fun k hk =>
      h.offer_eq hs hcomes hnone' hoffer hk).2 hsuf)

/-- The number of windows that `split` takes is the one that suffices. -/
theorem SplitInRange.first (h : SplitInRange c s rt Es) (hs : s.edfWmTask rt = EdfWmTask.clear c)
    (hfirst : FirstEnough c s rt fuel num offer)
    (hnone : ∀ n ≤ num, ComesTo c s rt Es n → NoneWraps c s rt Es n) :
    ComesTo c s rt Es num ∧ Suffices c s rt Es num ∧
      ∀ k < c.nrRtCpus, offer k = roomFor c s rt Es num k := by
  have hnum := h.comesTo hs hfirst hnone num hfirst.two_le le_rfl
  have hoffer : ∀ k < c.nrRtCpus, offer k = roomFor c s rt Es num k :=
    fun k hk => h.offer_eq hs hnum (hnone num le_rfl hnum) hfirst.offers hk
  exact ⟨hnum, (h.enough_iff hfirst.le hoffer).1 hfirst.enough, hoffer⟩

/-- Nothing comes after the number of windows that suffices. -/
theorem ComesTo.le {n : ℕ} (h : ComesTo c s rt Es n) (htwo : 2 ≤ num)
    (hsuf : Suffices c s rt Es num) : n ≤ num :=
  not_lt.1 fun hlt => h.2.2 num htwo hlt hsuf

theorem FirstEnough.offers_le (h : FirstEnough c s rt fuel num offer) {n : ℕ} (htwo : 2 ≤ n)
    (hle : n ≤ num) : ∃ offer, EdfWm.offers c s rt fuel n = .ok offer := by
  rcases Nat.eq_or_lt_of_le hle with rfl | hlt
  · exact ⟨offer, h.offers⟩
  · obtain ⟨offer', hoffer, -⟩ := h.fails n htwo hlt
    exact ⟨offer', hoffer⟩

/-- **No subtraction wraps** on the way to the first number of windows that is enough iff none does
in the parameters. -/
theorem SplitInRange.exact_iff (h : SplitInRange c s rt Es) (hs : s.edfWmTask rt = EdfWmTask.clear c)
    (hfirst : FirstEnough c s rt fuel num offer) :
    Exact c s rt fuel num ↔ ∀ n ≤ num, ComesTo c s rt Es n → NoneWraps c s rt Es n := by
  have hat : ∀ {n}, n ≤ num → ComesTo c s rt Es n →
      ((∀ k < c.nrRtCpus, ∀ s₁, (List.range k).foldlM (fun s cpu => setSplitRuntime c s rt cpu fuel)
        (withWindow s rt n) = .ok s₁ → ShareExact c s₁ rt k fuel) ↔ NoneWraps c s rt Es n) := by
    intro n hle hn
    obtain ⟨offer', hoffer⟩ := hfirst.offers_le hn.1 hle
    exact forall₂_congr fun k hk => (offers_room hs hoffer hk (h.cpus n hn k hk)).1
  constructor
  · exact fun hexact n hle hn => (hat hle hn).1 (hexact n hn.1 hle)
  · intro hnone n htwo hle
    exact (hat hle (h.comesTo hs hfirst hnone n htwo hle)).2
      (hnone n hle (h.comesTo hs hfirst hnone n htwo hle))

/-- What is left over of `T` jiffies is rounded up. -/
theorem jiffies_left {T C : ℕ} (hT : c.usecPerTick * T < 2 ^ 32) (hC : C ≤ c.usecs T) :
    c.jiffies (c.usecs T - C) = T - C / c.usecPerTick := by
  have htick := c.tick_pos
  have husecs : c.usecs T = c.usecPerTick * T := Nat.mod_eq_of_lt hT
  rw [husecs] at hC ⊢
  have hmod : (c.usecPerTick * T - C) % 2 ^ 32 = c.usecPerTick * T - C :=
    Nat.mod_eq_of_lt (by omega)
  have hq : C / c.usecPerTick ≤ T := Nat.div_le_of_le_mul hC
  have hdm := Nat.div_add_mod C c.usecPerTick
  have hlt := Nat.mod_lt C htick
  unfold Config.jiffies Config.usecsToJiffies
  rw [hmod]
  have hmul : c.usecPerTick * T =
      c.usecPerTick * (T - C / c.usecPerTick) + c.usecPerTick * (C / c.usecPerTick) := by
    rw [← Nat.mul_add, Nat.sub_add_cancel hq]
  have hsplit : c.usecPerTick * T - C + c.usecPerTick - 1 =
      c.usecPerTick - 1 - C % c.usecPerTick + c.usecPerTick * (T - C / c.usecPerTick) := by
    omega
  rw [hsplit, Nat.add_mul_div_left _ _ htick, Nat.div_eq_of_lt (by omega), Nat.zero_add]

end Resch.Checked.EdfWm
