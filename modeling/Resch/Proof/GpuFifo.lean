import Resch.Spec.GpuFifo

/-!
# The FIFO policy serves every waiting device

* `select_ring`: one call moves its argument to the end of the list, and returns the first
  device with a waiting entity.
* `served`: with each call a waiting device that is not returned comes closer to the front.
* `fifo_no_bypass`: a device that waits at every call is returned by one of the first `n`.
-/

namespace Resch

open Lib

variable {s : FifoState} {l devices : List ℕ} {fuel gdev b d x : ℕ} {comList : ℕ → List ℕ}

/-- The list of the physical device -/
def FifoState.Holds (s : FifoState) (l : List ℕ) : Prop := s.links.IsRing .head (l.map .entry)

/-- The list with its entry `d` moved to the end -/
def moveToEnd (l : List ℕ) (d : ℕ) : List ℕ := l.erase d ++ [d]

theorem moveToEnd_perm (h : d ∈ l) : (moveToEnd l d).Perm l :=
  (List.perm_append_singleton d _).trans (List.perm_cons_erase h).symm

theorem entry_notMem (h : d ∉ l) : DeviceNode.entry d ∉ DeviceNode.head :: l.map .entry := by
  simpa using h

theorem map_entry_container :
    (l.map DeviceNode.entry).map DeviceNode.container = l.map some := by
  rw [List.map_map]
  exact List.map_congr_left fun _ _ => rfl

/-! ## Registration -/

theorem gschedCreateScheduler_holds (h : s.Holds l) (hd : d ∉ l) :
    (s.gschedCreateScheduler d).Holds (d :: l) := by
  have hn := entry_notMem hd
  have hne : ∀ y ∈ DeviceNode.head :: l.map .entry, y ≠ .entry d := by
    rintro y hy rfl
    exact hn hy
  refine Links.IsRing.addFront (h.congr (fun y hy => ?_) fun y hy => ?_) hn
  · exact Function.update_of_ne (hne y hy) ..
  · exact Function.update_of_ne (hne y hy) ..

theorem register_holds (links : Links DeviceNode) (h : devices.Nodup) :
    (FifoState.register links devices).Holds devices.reverse := by
  suffices ∀ (s : FifoState) (l : List ℕ), s.Holds l → (devices ++ l).Nodup →
      (devices.foldl FifoState.gschedCreateScheduler s).Holds (devices.reverse ++ l) by
    have := this ⟨links.init .head, none⟩ [] Links.IsRing.init (by simpa using h)
    rwa [List.append_nil] at this
  clear h
  induction devices with
  | nil => exact fun s l hs _ => hs
  | cons d devices ih =>
    intro s l hs hn
    rw [List.reverse_cons, List.append_assoc]
    have hp : (d :: devices ++ l).Perm (devices ++ d :: l) := List.perm_middle.symm
    have hn' := hp.nodup_iff.1 hn
    refine ih _ _ (gschedCreateScheduler_holds hs ?_) hn'
    exact (List.nodup_cons.1 (List.nodup_append.1 hn').2.1).1

/-! ## One call -/

/-- **One call** moves its argument to the end, and returns the first waiting device. -/
theorem select_ring (comList : ℕ → List ℕ) (h : s.Holds l) (hd : gdev ∈ l) (hf : l.length < fuel) :
    ∃ s', s.gdevVschedFifoSelectNextCompute fuel gdev comList =
        some (s', (moveToEnd l gdev).find? fun d => !(comList d).isEmpty) ∧
      s'.Holds (moveToEnd l gdev) := by
  have hnd : l.Nodup := by
    have := (List.nodup_cons.1 h.nodup).2
    exact this.of_map _
  obtain ⟨l₁, l₂, rfl⟩ := List.append_of_mem hd
  have hnot : gdev ∉ l₁ := fun hm =>
    (List.nodup_append.1 hnd).2.2 gdev hm gdev List.mem_cons_self rfl
  have herase : (l₁ ++ gdev :: l₂).erase gdev = l₁ ++ l₂ := by
    rw [List.erase_append_right _ hnot, List.erase_cons_head]
  have hgone : gdev ∉ l₁ ++ l₂ := by
    rw [← herase]
    exact hnd.not_mem_erase
  have hring : ((s.links.del (.entry gdev)).addPrev (.entry gdev) .head).IsRing .head
      ((moveToEnd (l₁ ++ gdev :: l₂) gdev).map .entry) := by
    unfold FifoState.Holds at h
    rw [List.map_append, List.map_cons] at h
    have hdel := h.del
    rw [← List.map_append] at hdel
    have := hdel.addTail (entry_notMem hgone)
    unfold moveToEnd
    rwa [herase, List.map_append]
  refine ⟨⟨_, (moveToEnd (l₁ ++ gdev :: l₂) gdev).find? fun d => !(comList d).isEmpty⟩, ?_, hring⟩
  unfold FifoState.gdevVschedFifoSelectNextCompute
  have hlen : (moveToEnd (l₁ ++ gdev :: l₂) gdev).length < fuel := by
    rw [(moveToEnd_perm hd).length_eq]
    exact hf
  simp only [hring.find map_entry_container rfl hlen]
  rfl

/-- A waiting device that is not returned comes one place closer to the front with the next
call. -/
theorem idxOf_moveToEnd (hb : b ∈ l) (hw : comList b ≠ [])
    (hx : l.find? (fun d => !(comList d).isEmpty) = some x) (hbx : x ≠ b) (hn : l.Nodup) :
    (moveToEnd l x).idxOf b + 1 = l.idxOf b := by
  obtain ⟨-, l₁, l₂, rfl, hl₁⟩ := List.find?_eq_some_iff_append.1 hx
  have hb₁ : b ∉ l₁ := by
    intro hm
    have := hl₁ b hm
    simp [hw] at this
  have hb₂ : b ∈ l₂ := by
    simpa [hb₁, Ne.symm hbx] using hb
  have hx₁ : x ∉ l₁ := fun hm => (List.nodup_append.1 hn).2.2 x hm x List.mem_cons_self rfl
  unfold moveToEnd
  rw [List.erase_append_right _ hx₁, List.erase_cons_head, List.append_assoc,
    List.idxOf_append_of_notMem hb₁, List.idxOf_append_of_notMem hb₁,
    List.idxOf_append_of_mem hb₂, List.idxOf_cons_ne _ hbx]
  omega

/-- The call returns `NULL` only if no device waits. -/
theorem find_eq_none (hp : l.Perm devices) :
    (l.find? fun d => !(comList d).isEmpty) = none ↔ ∀ d ∈ devices, comList d = [] := by
  rw [List.find?_eq_none]
  constructor
  · intro h d hd
    simpa using h d (hp.mem_iff.2 hd)
  · intro h d hd
    simpa using h d (hp.mem_iff.1 hd)

/-! ## All calls -/

theorem fifoCalls_ring {calls : List FifoCall} (h : s.Holds l) (hp : l.Perm devices)
    (hf : devices.length < fuel) (hc : ∀ c ∈ calls, c.gdev ∈ devices) :
    ∃ rs, fifoCalls fuel s calls = some rs ∧
      (∀ r ∈ rs, ∃ l, r.1.Holds l ∧ l.Perm devices) ∧
      List.Forall₂ (fun c r => r.2 = none ↔ ∀ d ∈ devices, c.comList d = []) calls rs := by
  induction calls generalizing s l with
  | nil => exact ⟨[], rfl, by simp, List.Forall₂.nil⟩
  | cons c calls ih =>
    have hmem : c.gdev ∈ l := hp.mem_iff.2 (hc c List.mem_cons_self)
    obtain ⟨s', hs', hl'⟩ := select_ring c.comList h hmem (hp.length_eq ▸ hf)
    have hp' := (moveToEnd_perm hmem).trans hp
    obtain ⟨rs, hrs, hall, hnull⟩ := ih hl' hp' fun c hm => hc c (List.mem_cons_of_mem _ hm)
    refine ⟨(s', _) :: rs, ?_, ?_, List.Forall₂.cons (find_eq_none hp') hnull⟩
    · rw [fifoCalls, hs', Option.bind_eq_bind, Option.bind_some, hrs]
      rfl
    · rintro r hr
      rcases List.mem_cons.1 hr with rfl | hr
      · exact ⟨_, hl', hp'⟩
      · exact hall r hr

/-- What the first call does for a waiting device `b`. -/
theorem first_call {calls : List FifoCall} {c : FifoCall} {rs : List (FifoState × Option ℕ)}
    (h : s.Holds l) (hb : b ∈ l) (hg : c.gdev ∈ l) (hf : l.length < fuel)
    (hrs : fifoCalls fuel s (c :: calls) = some rs) (hw : c.comList b ≠ []) :
    ∃ s' x rs', rs = (s', some x) :: rs' ∧ fifoCalls fuel s' calls = some rs' ∧
      s'.Holds (moveToEnd l c.gdev) ∧ x ∈ moveToEnd l c.gdev ∧
      (x = b ∨ (moveToEnd (moveToEnd l c.gdev) x).idxOf b + 1 = (moveToEnd l c.gdev).idxOf b) := by
  obtain ⟨s', hs', hl'⟩ := select_ring c.comList h hg hf
  have hp := moveToEnd_perm hg
  have hn : (moveToEnd l c.gdev).Nodup := (List.nodup_cons.1 hl'.nodup).2.of_map _
  obtain ⟨x, hx⟩ : ∃ x, (moveToEnd l c.gdev).find? (fun d => !(c.comList d).isEmpty) = some x := by
    rw [← Option.ne_none_iff_exists']
    intro hnone
    exact hw ((find_eq_none hp).1 hnone b hb)
  rw [hx] at hs'
  rw [fifoCalls, hs', Option.bind_eq_bind, Option.bind_some] at hrs
  obtain ⟨rs', hrs', hrs⟩ := Option.bind_eq_some_iff.1 hrs
  refine ⟨s', x, rs', ?_, hrs', hl', List.mem_of_find?_eq_some hx, ?_⟩
  · exact (Option.some.inj hrs).symm
  · by_cases hxb : x = b
    · exact Or.inl hxb
    · exact Or.inr (idxOf_moveToEnd (hp.mem_iff.2 hb) hw hx hxb hn)

/-- **A waiting device is served** by a call for each place that is in front of it after the
first call, and one more. -/
theorem served {calls : List FifoCall} {c : FifoCall} {rs : List (FifoState × Option ℕ)}
    (h : s.Holds l) (hb : b ∈ l) (hg : c.gdev ∈ l) (hf : l.length < fuel)
    (hrs : fifoCalls fuel s (c :: calls) = some rs) (hfollow : FollowOn (c :: calls) (rs.map (·.2)))
    (hw : ∀ c' ∈ c :: calls, c'.comList b ≠ [])
    (hlen : (moveToEnd l c.gdev).idxOf b < (c :: calls).length) :
    some b ∈ (rs.map (·.2)).take ((moveToEnd l c.gdev).idxOf b + 1) := by
  induction calls generalizing s l c rs with
  | nil =>
    obtain ⟨s', x, rs', rfl, -, -, -, hx⟩ := first_call h hb hg hf hrs (hw c List.mem_cons_self)
    rw [List.length_singleton] at hlen
    obtain rfl : x = b := by
      rcases hx with hx | hx
      · exact hx
      · omega
    simp
  | cons c' calls ih =>
    obtain ⟨s', x, rs', rfl, hrs', hl', hxl, hx⟩ :=
      first_call h hb hg hf hrs (hw c List.mem_cons_self)
    by_cases hxb : x = b
    · subst hxb
      simp
    · have hidx := hx.resolve_left hxb
      obtain ⟨hnext, hfollow⟩ := hfollow
      rw [Option.some.injEq] at hnext
      subst hnext
      have hp := moveToEnd_perm hg
      rw [List.length_cons] at hlen
      have hmem := ih hl' (hp.mem_iff.2 hb) hxl (hp.length_eq ▸ hf) hrs' hfollow
        (fun d hd => hw d (List.mem_cons_of_mem _ hd)) (by omega)
      rw [hidx] at hmem
      rw [List.map_cons, List.take_succ_cons]
      exact List.mem_cons_of_mem _ hmem

/-- **No waiting device is bypassed for long.** Every call of the run returns; the list is a
permutation of the registered devices after each; a call returns `NULL` iff no device waits; and
if each call is for the device that the call before it returned, a device that waits at every
call is returned by one of the first `n`. -/
theorem fifo_no_bypass (links : Links DeviceNode) (devices : List ℕ) (hn : devices.Nodup)
    (fuel : ℕ) (hf : devices.length < fuel) (calls : List FifoCall)
    (hc : ∀ c ∈ calls, c.gdev ∈ devices) :
    ∃ rs, fifoCalls fuel (.register links devices) calls = some rs ∧
      (∀ r ∈ rs, ∃ l, r.1.Holds l ∧ l.Perm devices) ∧
      List.Forall₂ (fun c r => r.2 = none ↔ ∀ d ∈ devices, c.comList d = []) calls rs ∧
      ∀ b ∈ devices, FollowOn calls (rs.map (·.2)) → (∀ c ∈ calls, c.comList b ≠ []) →
        devices.length ≤ calls.length → some b ∈ (rs.map (·.2)).take devices.length := by
  have hring := register_holds links hn
  have hp := List.reverse_perm devices
  obtain ⟨rs, hrs, hall, hnull⟩ := fifoCalls_ring hring hp hf hc
  refine ⟨rs, hrs, hall, hnull, fun b hb hfollow hw hlen => ?_⟩
  cases calls with
  | nil =>
    rw [List.length_nil, Nat.le_zero, List.length_eq_zero_iff] at hlen
    rw [hlen] at hb
    cases hb
  | cons c calls =>
    have hg : c.gdev ∈ devices.reverse := hp.mem_iff.2 (hc c List.mem_cons_self)
    have hp' := (moveToEnd_perm hg).trans hp
    -- after the first call `b` is at one of the `n` places
    have hidx : (moveToEnd devices.reverse c.gdev).idxOf b < devices.length := by
      rw [← hp'.length_eq]
      exact List.idxOf_lt_length_of_mem (hp'.mem_iff.2 hb)
    have hmem := served hring (hp.mem_iff.2 hb) hg (by rwa [hp.length_eq]) hrs hfollow hw
      (Nat.lt_of_lt_of_le hidx hlen)
    exact List.take_subset_take_left _ (Nat.succ_le_of_lt hidx) hmem

/-- Three devices, of which device 2 waits all the time and device 0 comes and goes. -/
theorem fifo_no_bypass_three :
    ∃ rs, fifoCalls 4 (.register ⟨id, id⟩ [0, 1, 2])
        [⟨2, fun d => if d = 1 then [] else [d]⟩, ⟨0, fun d => [d]⟩, ⟨1, fun d => [d]⟩] = some rs ∧
      some 2 ∈ (rs.map (·.2)).take 3 := by
  obtain ⟨rs, hrs, -, -, h⟩ := fifo_no_bypass ⟨id, id⟩ [0, 1, 2] (by decide) 4 (by decide)
    [⟨2, fun d => if d = 1 then [] else [d]⟩, ⟨0, fun d => [d]⟩, ⟨1, fun d => [d]⟩] (by decide)
  refine ⟨rs, hrs, h 2 (by decide) ?_ (by decide) (by decide)⟩
  have hcalls : (fifoCalls 4 (.register ⟨id, id⟩ [0, 1, 2])
      [⟨2, fun d => if d = 1 then [] else [d]⟩, ⟨0, fun d => [d]⟩, ⟨1, fun d => [d]⟩]).map
        (fun rs => rs.map (·.2)) = some [some 0, some 1, some 2] := by
    decide +kernel
  rw [hrs, Option.map_some, Option.some.injEq] at hcalls
  rw [hcalls]
  exact ⟨rfl, rfl, trivial⟩

end Resch
