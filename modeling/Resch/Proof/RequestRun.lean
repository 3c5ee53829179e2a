import Resch.Lib.Rings
import Resch.Lib.Runs
import Resch.Proof.Refused
import Resch.Spec.ApiRun
import Resch.Spec.RequestRun

/-!
# Direct and requested changes of the scheduler

* `RequestInv`: as long as no task has two requests at a time, the list of each CPU is a ring of
  the requests that wait there, and what was queued is what was served, what is in the hands of
  the thread, and what waits.
* `RequestInv.step`: every step keeps it.
* `LoneInv`: what one request does to the core, whatever the order of the steps.
* `set_scheduler_agree`: a request and a direct call agree iff Linux accepts the change, and
  requests are served in order, each once, before their callers go on.
-/

namespace Resch

open Lib

/-! ## Where a caller is -/

/-- The request that a caller is in -/
def CallerPoint.request : CallerPoint → Option Request
  | idle => none
  | init r | add r | wake r | setState r | schedule r | blocked r => some r

/-- The request whose `setsched` has been stored -/
def CallerPoint.stored : CallerPoint → Option Request
  | idle | init _ => none
  | add r | wake r | setState r | schedule r | blocked r => some r

/-- The request that has been put in a list -/
def CallerPoint.posted : CallerPoint → Option Request
  | idle | init _ | add _ => none
  | wake r | setState r | schedule r | blocked r => some r

variable {x : CallerPoint} {r : Request}

theorem CallerPoint.stored_of_posted (h : x.posted = some r) : x.stored = some r := by
  cases x <;> simp_all [posted, stored]

theorem CallerPoint.request_of_stored (h : x.stored = some r) : x.request = some r := by
  cases x <;> simp_all [stored, request]

theorem CallerPoint.posted_of_waiting (h : x = .schedule r ∨ x = .blocked r) :
    x.posted = some r := by
  rcases h with rfl | rfl <;> rfl

theorem CallerPoint.request_of_posted (h : x.posted = some r) : x.request = some r :=
  request_of_stored (stored_of_posted h)

/-- A caller that goes on is seen as before by what does not tell the two points apart. -/
theorem view_update {β : Type*} {point : ℕ → CallerPoint} {p : ℕ} (f : CallerPoint → β)
    (hf : f x = f (point p)) (q : ℕ) : f (Function.update point p x q) = f (point q) := by
  by_cases hq : q = p
  · subst hq
    rw [Function.update_self, hf]
  · rw [Function.update_of_ne hq]

theorem RequestNode.entry_injective : Function.Injective RequestNode.entry := by
  intro a b h
  injection h

/-! ## The invariant -/

variable {c : Config} {s s' : RequestState} {p q cpu cpu' rt : ℕ} {w : List Request}

/-- The request that the thread of a CPU has taken and not served yet -/
def RequestState.taken (s : RequestState) (cpu : ℕ) : List Request :=
  match s.thread cpu with
  | .serve rt => [s.setsched rt]
  | _ => []

/-- The requests `w` wait in the list of `cpu`. -/
structure RequestState.Waits (s : RequestState) (cpu : ℕ) (w : List Request) : Prop where
  ring : s.links.IsRing (.head cpu) (w.map fun r => .entry r.rt)
  queued : s.queued cpu = s.served cpu ++ s.taken cpu ++ w
  live : ∀ r ∈ w, r.cpu = cpu ∧ (s.point r.caller).posted = some r

/-- The thread of `cpu` has a request for `rt` in its hands. -/
def RequestState.InHands (s : RequestState) (cpu rt : ℕ) : Prop :=
  ∃ r, r.rt = rt ∧ r.cpu = cpu ∧ (s.point r.caller).posted = some r

/-- Unless a caller is about to wake the thread of `cpu`, all requests there have been served. -/
def RequestState.Settled (s : RequestState) (cpu : ℕ) : Prop :=
  s.served cpu = s.queued cpu ∨ ∃ p r, s.point p = .wake r ∧ r.cpu = cpu

structure RequestInv (s : RequestState) : Prop where
  caller : ∀ p r, (s.point p).request = some r → r.caller = p
  single : ∀ p q r r', (s.point p).request = some r → (s.point q).request = some r' →
    r.rt = r'.rt → p = q
  setsched : ∀ p r, (s.point p).stored = some r → s.setsched r.rt = r
  next : ∀ cpu, ∀ r ∈ s.queued cpu, r.number < s.next
  unqueued : ∀ p r, s.point p = .init r ∨ s.point p = .add r →
    r.number < s.next ∧ ∀ cpu, r ∉ s.queued cpu
  nodup : ∀ cpu, (s.queued cpu).Nodup
  waits : ∀ cpu, ∃ w, s.Waits cpu w
  serve : ∀ cpu rt, s.thread cpu = .serve rt → s.InHands cpu rt
  wake : ∀ cpu rt, s.thread cpu = .wake rt → s.InHands cpu rt ∧ s.setsched rt ∈ s.served cpu
  awake : ∀ p r, s.point p = .schedule r ∨ s.point p = .blocked r → s.awake p = true →
    r ∈ s.served r.cpu ∧ s.thread r.cpu ≠ .wake r.rt
  returned : ∀ x ∈ s.returned, x.1 ∈ s.served x.1.cpu
  rest : ∀ cpu, s.thread cpu = .schedule → s.threadAwake cpu = false → s.Settled cpu

namespace RequestInv

theorem posted_inj (h : RequestInv s) {r r' : Request} (hr : (s.point r.caller).posted = some r)
    (hr' : (s.point r'.caller).posted = some r') (heq : r.rt = r'.rt) : r = r' := by
  have hc := h.single _ _ r r' (CallerPoint.request_of_posted hr)
    (CallerPoint.request_of_posted hr') heq
  rw [hc] at hr
  exact Option.some.inj (hr.symm.trans hr')

/-- What a thread has in its hands is what the task's `setsched` says. -/
theorem setsched_of_inHands (h : RequestInv s) (hh : s.InHands cpu rt) :
    (s.setsched rt).rt = rt ∧ (s.setsched rt).cpu = cpu ∧
      (s.point (s.setsched rt).caller).posted = some (s.setsched rt) := by
  obtain ⟨r, rfl, rfl, hp⟩ := hh
  rw [h.setsched _ r (CallerPoint.stored_of_posted hp)]
  exact ⟨rfl, rfl, hp⟩

/-- The list of another CPU has no node of the list of `cpu`. -/
theorem disjoint (h : RequestInv s) {w' : List Request} (hw : s.Waits cpu w) (hw' : s.Waits cpu' w')
    (hne : cpu' ≠ cpu) : ∀ y ∈ RequestNode.head cpu' :: w'.map (fun r => .entry r.rt),
      y ∉ RequestNode.head cpu :: w.map fun r => .entry r.rt := by
  intro y hy hy'
  rcases List.mem_cons.1 hy with rfl | hy
  · rcases List.mem_cons.1 hy' with he | hm
    · exact hne (by injection he)
    · simp at hm
  · obtain ⟨r', hr', rfl⟩ := List.mem_map.1 hy
    rcases List.mem_cons.1 hy' with he | hm
    · cases he
    · obtain ⟨r, hr, he⟩ := List.mem_map.1 hm
      injection he with he
      obtain ⟨hc, hp⟩ := hw.live r hr
      obtain ⟨hc', hp'⟩ := hw'.live r' hr'
      have := h.posted_inj hp hp' he
      subst this
      exact hne (hc'.symm.trans hc)

/-- A request whose caller has been woken is out of the list and of the thread's hands. -/
theorem not_inHands (h : RequestInv s) (hp : s.point p = .schedule r ∨ s.point p = .blocked r)
    (ha : s.awake p = true) : r ∉ s.taken r.cpu ∧ (∀ w, s.Waits r.cpu w → r ∉ w) := by
  obtain ⟨hs, -⟩ := h.awake p r hp ha
  have hdisj : ∀ w, s.Waits r.cpu w → r ∉ s.taken r.cpu ∧ r ∉ w := by
    intro w hw
    have hn := h.nodup r.cpu
    rw [hw.queued] at hn
    have hn' := (List.nodup_append.1 hn).2.2
    have hn'' := (List.nodup_append.1 (List.nodup_append.1 hn).1).2.2
    exact ⟨fun hm => hn'' r hs r hm rfl, fun hm => hn' r (List.mem_append_left _ hs) r hm rfl⟩
  obtain ⟨w, hw⟩ := h.waits r.cpu
  exact ⟨(hdisj w hw).1, fun w hw => (hdisj w hw).2⟩

/-! ## The steps of a caller -/

end RequestInv

theorem RequestState.Settled.keep (h : s.Settled cpu) {point : ℕ → CallerPoint}
    (hp : ∀ q r, s.point q = .wake r → r.cpu = cpu → point q = s.point q) :
    RequestState.Settled { s with point } cpu := by
  rcases h with h | ⟨q, r, hq, hc⟩
  · exact Or.inl h
  · exact Or.inr ⟨q, r, (hp q r hq hc).trans hq, hc⟩

namespace RequestInv

/-- Steps that leave the requests, the lists and the threads as they are. -/
theorem move (h : RequestInv s) (point : ℕ → CallerPoint) (awake threadAwake : ℕ → Bool)
    (hrequest : ∀ q, (point q).request = (s.point q).request)
    (hstored : ∀ q, (point q).stored = (s.point q).stored)
    (hposted : ∀ q, (point q).posted = (s.point q).posted)
    (hun : ∀ q r, point q = .init r ∨ point q = .add r → s.point q = .init r ∨ s.point q = .add r)
    (hawake : ∀ q r, point q = .schedule r ∨ point q = .blocked r → awake q = true →
      r ∈ s.served r.cpu ∧ s.thread r.cpu ≠ .wake r.rt)
    (hrest : ∀ cpu, s.thread cpu = .schedule → threadAwake cpu = false →
      RequestState.Settled { s with point } cpu) :
    RequestInv { s with point := point, awake := awake, threadAwake := threadAwake } := by
  have hhands : ∀ cpu rt, s.InHands cpu rt →
      RequestState.InHands { s with point, awake, threadAwake } cpu rt := by
    rintro cpu rt ⟨r, hr, hc, hp⟩
    exact ⟨r, hr, hc, (hposted _).trans hp⟩
  refine ⟨fun p r hp => ?_, fun p q r r' hp hq => ?_, fun p r hp => ?_, h.next, fun p r hp => ?_,
    h.nodup, fun cpu => ?_, fun cpu rt ht => ?_, fun cpu rt ht => ?_, hawake, h.returned, hrest⟩
  · exact h.caller p r ((hrequest p).symm.trans hp)
  · exact h.single p q r r' ((hrequest p).symm.trans hp) ((hrequest q).symm.trans hq)
  · exact h.setsched p r ((hstored p).symm.trans hp)
  · exact h.unqueued p r (hun p r hp)
  · obtain ⟨w, hw⟩ := h.waits cpu
    refine ⟨w, hw.ring, hw.queued, fun r hr => ?_⟩
    obtain ⟨hc, hp⟩ := hw.live r hr
    exact ⟨hc, (hposted _).trans hp⟩
  · exact hhands cpu rt (h.serve cpu rt ht)
  · exact ⟨hhands cpu rt (h.wake cpu rt ht).1, (h.wake cpu rt ht).2⟩

/-- A caller goes on within its request, after it has put it in the list. -/
theorem advance (h : RequestInv s) {x : CallerPoint} (awake threadAwake : ℕ → Bool)
    (hp : (s.point p).posted = some r) (hx : x.posted = some r)
    (hawake : ∀ q r, Function.update s.point p x q = .schedule r ∨
      Function.update s.point p x q = .blocked r → awake q = true →
      r ∈ s.served r.cpu ∧ s.thread r.cpu ≠ .wake r.rt)
    (hrest : ∀ cpu, s.thread cpu = .schedule → threadAwake cpu = false →
      s.threadAwake cpu = false ∧ (s.point p = .wake r → r.cpu ≠ cpu)) :
    RequestInv { s with
      point := Function.update s.point p x, awake := awake, threadAwake := threadAwake } := by
  refine h.move _ awake threadAwake (view_update _ ?_) (view_update _ ?_) (view_update _ ?_)
    (fun q r' hq => ?_) hawake fun cpu ht ha => ?_
  · rw [CallerPoint.request_of_posted hp, CallerPoint.request_of_posted hx]
  · rw [CallerPoint.stored_of_posted hp, CallerPoint.stored_of_posted hx]
  · rw [hp, hx]
  · by_cases hqp : q = p
    · subst hqp
      rw [Function.update_self] at hq
      rcases hq with rfl | rfl <;> cases hx
    · rwa [Function.update_of_ne hqp] at hq
  · obtain ⟨ha, hne⟩ := hrest cpu ht ha
    refine (h.rest cpu ht ha).keep fun q r' hq hc => ?_
    refine Function.update_of_ne ?_ ..
    rintro rfl
    have hr : r' = r := by
      rw [hq] at hp
      exact Option.some.inj hp
    exact hne (hr ▸ hq) (hr ▸ hc)

theorem call (h : RequestInv s) {policy prio : ℤ} (hp : s.point p = .idle)
    (halone : ∀ q r, (s.point q).request = some r → r.rt ≠ rt) :
    RequestInv (s.call p cpu c rt policy prio) := by
  have hpoint : ∀ q, (s.call p cpu c rt policy prio).point q =
      if q = p then .init ⟨s.next, p, rt, cpu, prio⟩ else s.point q := fun q =>
    Function.update_apply ..
  have hposted : ∀ q r, (s.point q).posted = some r →
      ((s.call p cpu c rt policy prio).point q).posted = some r := by
    intro q r hq
    rw [hpoint, if_neg]
    · exact hq
    · -- the caller has nothing posted yet
      rintro rfl
      rw [hp] at hq
      cases hq
  have hhands : ∀ cpu' rt', s.InHands cpu' rt' →
      (s.call p cpu c rt policy prio).InHands cpu' rt' := by
    rintro cpu' rt' ⟨r, hr, hc, hq⟩
    exact ⟨r, hr, hc, hposted _ r hq⟩
  refine ⟨fun q r hq => ?_, fun q q' r r' hq hq' heq => ?_, fun q r hq => ?_, fun cpu r hr => ?_,
    fun q r hq => ?_, h.nodup, fun cpu' => ?_, fun cpu rt ht => ?_, fun cpu rt ht => ?_,
    fun q r hq ha => ?_, h.returned, fun cpu ht ha => (h.rest cpu ht ha).keep fun q r hq _ => ?_⟩
  · rw [hpoint] at hq
    split at hq
    · rename_i hqp
      cases hq
      exact hqp.symm
    · exact h.caller q r hq
  · rw [hpoint] at hq hq'
    split at hq <;> split at hq'
    · simp_all
    · cases hq
      exact absurd heq.symm (halone q' r' hq')
    · cases hq'
      exact absurd heq (halone q r hq)
    · exact h.single q q' r r' hq hq' heq
  · rw [hpoint] at hq
    split at hq
    · cases hq
    · exact h.setsched q r hq
  · have := h.next cpu r hr
    exact Nat.lt_succ_of_lt this
  · rw [hpoint] at hq
    split at hq
    · simp only [CallerPoint.init.injEq, reduceCtorEq, or_false] at hq
      subst hq
      exact ⟨Nat.lt_succ_self _, fun cpu' hm => absurd (h.next cpu' _ hm) (lt_irrefl _)⟩
    · obtain ⟨hn, hq⟩ := h.unqueued q r hq
      exact ⟨Nat.lt_succ_of_lt hn, hq⟩
  · obtain ⟨w, hw⟩ := h.waits cpu'
    refine ⟨w, hw.ring, hw.queued, fun r hr => ?_⟩
    obtain ⟨hc, hq⟩ := hw.live r hr
    exact ⟨hc, hposted _ r hq⟩
  · exact hhands cpu rt (h.serve cpu rt ht)
  · exact ⟨hhands cpu rt (h.wake cpu rt ht).1, (h.wake cpu rt ht).2⟩
  · rw [hpoint] at hq
    split at hq
    · simp at hq
    · exact h.awake q r hq ha
  · refine (hpoint q).trans (if_neg ?_)
    rintro rfl
    cases hq.symm.trans hp

/-- A request that has been put in a list is not of a task whose caller has not come to that. -/
theorem rt_ne (h : RequestInv s) {r' : Request} (hr : (s.point p).request = some r)
    (hun : (s.point p).posted = none) (hr' : (s.point r'.caller).posted = some r') :
    r'.rt ≠ r.rt := by
  intro he
  have hc := h.single _ _ _ _ (CallerPoint.request_of_posted hr') hr he
  rw [hc, hun] at hr'
  cases hr'

theorem init (h : RequestInv s) (hp : s.point p = .init r) :
    RequestInv { s.setPoint p (.add r) with
      links := s.links.init (.entry r.rt)
      setsched := Function.update s.setsched r.rt r } := by
  have hreq : (s.point p).request = some r := by rw [hp]; rfl
  have hun : (s.point p).posted = none := by rw [hp]; rfl
  have hpoint : ∀ q, q ≠ p → Function.update s.point p (.add r) q = s.point q := fun q hq =>
    Function.update_of_ne hq ..
  have hrequest : ∀ q, (Function.update s.point p (.add r) q).request = (s.point q).request :=
    view_update _ hreq.symm
  have hposted : ∀ q, (Function.update s.point p (.add r) q).posted = (s.point q).posted :=
    view_update _ hun.symm
  have hset : ∀ cpu rt, s.InHands cpu rt → Function.update s.setsched r.rt r rt = s.setsched rt := by
    rintro cpu rt ⟨r', rfl, -, hr'⟩
    exact Function.update_of_ne (h.rt_ne hreq hun hr') ..
  have hhands : ∀ {s' : RequestState}, s'.point = Function.update s.point p (.add r) →
      ∀ cpu rt, s.InHands cpu rt → s'.InHands cpu rt := by
    rintro s' hs' cpu rt ⟨r', hr, hc, hq⟩
    exact ⟨r', hr, hc, by rw [hs', hposted, hq]⟩
  refine ⟨fun q r' hq => ?_, fun q q' r₁ r₂ hq hq' => ?_, fun q r' hq => ?_, h.next,
    fun q r' hq => ?_, h.nodup, fun cpu => ?_, fun cpu rt ht => ?_, fun cpu rt ht => ?_,
    fun q r' hq ha => ?_, h.returned,
    fun cpu ht ha => (h.rest cpu ht ha).keep fun q r' hq _ => hpoint q ?_⟩
  · exact h.caller q r' ((hrequest q).symm.trans hq)
  · exact h.single q q' r₁ r₂ ((hrequest q).symm.trans hq) ((hrequest q').symm.trans hq')
  · by_cases hqp : q = p
    · subst hqp
      have he : r' = r := Option.some.inj
        ((CallerPoint.request_of_stored hq).symm.trans ((hrequest q).trans hreq))
      rw [he]
      exact Function.update_self ..
    · have hst : (s.point q).stored = some r' := by rw [← hpoint q hqp]; exact hq
      have hne : r'.rt ≠ r.rt := fun he =>
        hqp (h.single q p r' r (CallerPoint.request_of_stored hst) hreq he)
      exact (Function.update_of_ne hne ..).trans (h.setsched q r' hst)
  · by_cases hqp : q = p
    · subst hqp
      have he : r' = r := by
        change Function.update s.point q _ q = _ ∨ Function.update s.point q _ q = _ at hq
        rw [Function.update_self] at hq
        simpa [eq_comm] using hq
      rw [he]
      exact h.unqueued q r (Or.inl hp)
    · exact h.unqueued q r' (by rw [← hpoint q hqp]; exact hq)
  · obtain ⟨w, hw⟩ := h.waits cpu
    have hnot : ∀ y ∈ RequestNode.head cpu :: w.map (fun r => .entry r.rt),
        y ≠ RequestNode.entry r.rt := by
      intro y hy
      rcases List.mem_cons.1 hy with rfl | hy
      · exact fun he => by cases he
      · obtain ⟨r', hr', rfl⟩ := List.mem_map.1 hy
        exact fun he => h.rt_ne hreq hun (hw.live r' hr').2 (RequestNode.entry_injective he)
    refine ⟨w, hw.ring.congr (fun y hy => ?_) (fun y hy => ?_), ?_, fun r' hr' => ?_⟩
    · exact Function.update_of_ne (hnot y hy) ..
    · exact Function.update_of_ne (hnot y hy) ..
    · -- the request in the hands of the thread is of another task
      have htaken : RequestState.taken { s.setPoint p (.add r) with
          links := s.links.init (.entry r.rt)
          setsched := Function.update s.setsched r.rt r } cpu = s.taken cpu := by
        unfold RequestState.taken RequestState.setPoint
        dsimp only
        split
        · rename_i rt ht
          rw [hset cpu rt (h.serve cpu rt ht)]
        · rfl
      rw [htaken]
      exact hw.queued
    · obtain ⟨hc, hq⟩ := hw.live r' hr'
      exact ⟨hc, (hposted _).trans hq⟩
  · exact hhands rfl cpu rt (h.serve cpu rt ht)
  · obtain ⟨hh, hs⟩ := h.wake cpu rt ht
    refine ⟨hhands rfl cpu rt hh, ?_⟩
    change Function.update s.setsched r.rt r rt ∈ s.served cpu
    rw [hset cpu rt hh]
    exact hs
  · refine h.awake q r' ?_ ha
    by_cases hqp : q = p
    · subst hqp
      change Function.update s.point q _ q = _ ∨ Function.update s.point q _ q = _ at hq
      rw [Function.update_self] at hq
      simp at hq
    · rw [← hpoint q hqp]
      exact hq
  · rintro rfl
    cases hq.symm.trans hp

theorem add (h : RequestInv s) (hp : s.point p = .add r) :
    RequestInv { s.setPoint p (.wake r) with
      links := s.links.addPrev (.entry r.rt) (.head r.cpu)
      queued := Function.update s.queued r.cpu (s.queued r.cpu ++ [r]) } := by
  have hreq : (s.point p).request = some r := by rw [hp]; rfl
  have hun : (s.point p).posted = none := by rw [hp]; rfl
  have hcaller : r.caller = p := h.caller p r hreq
  have hpoint : ∀ q, q ≠ p → Function.update s.point p (.wake r) q = s.point q := fun q hq =>
    Function.update_of_ne hq ..
  have hrequest : ∀ q, (Function.update s.point p (.wake r) q).request = (s.point q).request :=
    view_update _ hreq.symm
  have hstored : ∀ q, (Function.update s.point p (.wake r) q).stored = (s.point q).stored :=
    view_update _ (by rw [hp]; rfl)
  have hposted : ∀ q r', (s.point q).posted = some r' →
      (Function.update s.point p (.wake r) q).posted = some r' := by
    intro q r' hq
    rw [hpoint q, hq]
    rintro rfl
    rw [hun] at hq
    cases hq
  obtain ⟨hnum, hnot⟩ := h.unqueued p r (Or.inr hp)
  -- the request is added to the sequence of its own CPU only
  have hmem : ∀ cpu r', r' ∈ Function.update s.queued r.cpu (s.queued r.cpu ++ [r]) cpu →
      r' ∈ s.queued cpu ∨ r' = r := by
    intro cpu r' hr'
    by_cases hc : cpu = r.cpu
    · subst hc
      rw [Function.update_self] at hr'
      simpa using hr'
    · rw [Function.update_of_ne hc] at hr'
      exact Or.inl hr'
  have hhands : ∀ {s' : RequestState}, s'.point = Function.update s.point p (.wake r) →
      ∀ cpu rt, s.InHands cpu rt → s'.InHands cpu rt := by
    rintro s' hs' cpu rt ⟨r', hr, hc, hq⟩
    exact ⟨r', hr, hc, by rw [hs', hposted _ _ hq]⟩
  obtain ⟨w₀, hw₀⟩ := h.waits r.cpu
  -- its entry is in no ring: no other request in flight is for the same task
  have hfresh : ∀ {cpu w}, s.Waits cpu w →
      RequestNode.entry r.rt ∉ RequestNode.head cpu :: w.map fun r => .entry r.rt := by
    intro cpu w hw hm
    rcases List.mem_cons.1 hm with he | hm
    · cases he
    · obtain ⟨r', hr', he⟩ := List.mem_map.1 hm
      exact h.rt_ne hreq hun (hw.live r' hr').2 (RequestNode.entry_injective he)
  refine ⟨fun q r' hq => ?_, fun q q' r₁ r₂ hq hq' => ?_, fun q r' hq => ?_, fun cpu r' hr' => ?_,
    fun q r' hq => ?_, fun cpu => ?_, fun cpu => ?_, fun cpu rt ht => ?_, fun cpu rt ht => ?_,
    fun q r' hq ha => ?_, h.returned, fun cpu ht ha => ?_⟩
  · exact h.caller q r' ((hrequest q).symm.trans hq)
  · exact h.single q q' r₁ r₂ ((hrequest q).symm.trans hq) ((hrequest q').symm.trans hq')
  · exact h.setsched q r' ((hstored q).symm.trans hq)
  · rcases hmem cpu r' hr' with hr' | rfl
    · exact h.next cpu r' hr'
    · exact hnum
  · have hqp : q ≠ p := by
      rintro rfl
      change Function.update s.point q _ q = _ ∨ Function.update s.point q _ q = _ at hq
      rw [Function.update_self] at hq
      simp at hq
    change Function.update s.point p _ q = _ ∨ Function.update s.point p _ q = _ at hq
    rw [hpoint q hqp] at hq
    obtain ⟨hn, hnq⟩ := h.unqueued q r' hq
    refine ⟨hn, fun cpu hm => ?_⟩
    rcases hmem cpu r' hm with hm | rfl
    · exact hnq cpu hm
    · have hq' : (s.point q).request = some r' := by
        rcases hq with hq | hq <;> rw [hq] <;> rfl
      exact hqp ((h.caller q r' hq').symm.trans hcaller)
  · change (Function.update s.queued r.cpu _ cpu).Nodup
    by_cases hc : cpu = r.cpu
    · subst hc
      rw [Function.update_self, List.nodup_append]
      refine ⟨h.nodup _, List.nodup_singleton r, fun a ha b hb => ?_⟩
      rw [List.mem_singleton] at hb
      rintro rfl
      exact hnot _ (hb ▸ ha)
    · rw [Function.update_of_ne hc]
      exact h.nodup cpu
  · by_cases hc : cpu = r.cpu
    · subst hc
      refine ⟨w₀ ++ [r], ?_, ?_, fun r' hr' => ?_⟩
      · rw [List.map_append]
        exact hw₀.ring.addTail (hfresh hw₀)
      · change Function.update s.queued r.cpu _ r.cpu = _
        rw [Function.update_self, hw₀.queued, List.append_assoc]
        rfl
      · rcases List.mem_append.1 hr' with hr' | hr'
        · obtain ⟨hc, hq⟩ := hw₀.live r' hr'
          exact ⟨hc, hposted _ _ hq⟩
        · rw [List.mem_singleton] at hr'
          subst hr'
          refine ⟨rfl, ?_⟩
          rw [hcaller]
          change (Function.update s.point p _ p).posted = _
          rw [Function.update_self]
          rfl
    · obtain ⟨w, hw⟩ := h.waits cpu
      -- the ring of another CPU keeps its links
      have hframe : ∀ y ∈ RequestNode.head cpu :: w.map (fun r => .entry r.rt),
          (s.links.addPrev (.entry r.rt) (.head r.cpu)).next y = s.links.next y ∧
          (s.links.addPrev (.entry r.rt) (.head r.cpu)).prev y = s.links.prev y := by
        intro y hy
        refine hw₀.ring.addPrev_frame List.mem_cons_self (h.disjoint hw₀ hw hc y hy) ?_
        rintro rfl
        exact hfresh hw hy
      refine ⟨w, hw.ring.congr (fun y hy => (hframe y hy).1) (fun y hy => (hframe y hy).2), ?_,
        fun r' hr' => ?_⟩
      · change Function.update s.queued r.cpu _ cpu = _
        rw [Function.update_of_ne hc]
        exact hw.queued
      · obtain ⟨hc, hq⟩ := hw.live r' hr'
        exact ⟨hc, hposted _ _ hq⟩
  · exact hhands rfl cpu rt (h.serve cpu rt ht)
  · exact ⟨hhands rfl cpu rt (h.wake cpu rt ht).1, (h.wake cpu rt ht).2⟩
  · refine h.awake q r' ?_ ha
    have hqp : q ≠ p := by
      rintro rfl
      change Function.update s.point q _ q = _ ∨ Function.update s.point q _ q = _ at hq
      rw [Function.update_self] at hq
      simp at hq
    rw [← hpoint q hqp]
    exact hq
  · -- the thread of this CPU may sleep now, until `p` has woken it
    by_cases hc : cpu = r.cpu
    · exact Or.inr ⟨p, r, Function.update_self .., hc.symm⟩
    · rcases h.rest cpu ht ha with he | ⟨q, r', hq, hc'⟩
      · exact Or.inl (he.trans (Function.update_of_ne hc ..).symm)
      · refine Or.inr ⟨q, r', (hpoint q ?_).trans hq, hc'⟩
        rintro rfl
        cases hq.symm.trans hp

/-- A caller that has been woken goes on. -/
theorem finish (h : RequestInv s) (hp : s.point p = .schedule r ∨ s.point p = .blocked r)
    (ha : s.awake p = true) {v : Bool} :
    RequestInv { s.setPoint p .idle with returned := (r, v) :: s.returned } := by
  have hreq := CallerPoint.posted_of_waiting hp
  obtain ⟨hserved, hwake⟩ := h.awake p r hp ha
  -- nobody has the request in hand once it has been served
  obtain ⟨htaken, hwaiting⟩ := h.not_inHands hp ha
  have hidle : Function.update s.point p .idle p = .idle := Function.update_self ..
  have hpoint : ∀ q, q ≠ p → Function.update s.point p .idle q = s.point q := fun q hq =>
    Function.update_of_ne hq ..
  have hother : ∀ q, Function.update s.point p .idle q = .idle ∨
      Function.update s.point p .idle q = s.point q := by
    intro q
    by_cases hq : q = p
    · exact Or.inl (hq ▸ hidle)
    · exact Or.inr (hpoint q hq)
  have hlive : ∀ (f : CallerPoint → Option Request) {q r'}, f .idle = none →
      f (Function.update s.point p .idle q) = some r' → f (s.point q) = some r' := by
    intro f q r' hf hq
    rcases hother q with he | he
    · rw [he, hf] at hq
      cases hq
    · rwa [he] at hq
  -- the other requests have other callers
  have hposted : ∀ r', r' ≠ r → (s.point r'.caller).posted = some r' →
      (Function.update s.point p .idle r'.caller).posted = some r' := by
    intro r' hne hr'
    rw [hpoint, hr']
    intro hc
    rw [hc, hreq] at hr'
    exact hne (Option.some.inj hr').symm
  have hhands : ∀ {s' : RequestState}, s'.point = Function.update s.point p .idle →
      ∀ cpu rt, s.InHands cpu rt → (cpu = r.cpu → rt ≠ r.rt) → s'.InHands cpu rt := by
    rintro s' hs' cpu rt ⟨r', hr, hc, hq⟩ hne
    refine ⟨r', hr, hc, ?_⟩
    rw [hs', hposted r' _ hq]
    rintro rfl
    exact hne hc.symm hr.symm
  refine ⟨fun q r' hq => ?_, fun q q' r₁ r₂ hq hq' => ?_, fun q r' hq => ?_, h.next,
    fun q r' hq => ?_, h.nodup, fun cpu => ?_, fun cpu rt ht => ?_, fun cpu rt ht => ?_,
    fun q r' hq ha' => ?_, fun x hx => ?_,
    fun cpu ht ha' => (h.rest cpu ht ha').keep fun q r' hq _ => hpoint q ?_⟩
  · exact h.caller q r' (hlive CallerPoint.request rfl hq)
  · exact h.single q q' r₁ r₂ (hlive CallerPoint.request rfl hq) (hlive CallerPoint.request rfl hq')
  · exact h.setsched q r' (hlive CallerPoint.stored rfl hq)
  · rcases hother q with he | he
    · dsimp only [RequestState.setPoint] at hq
      rw [he] at hq
      simp at hq
    · exact h.unqueued q r' (he ▸ hq)
  · obtain ⟨w, hw⟩ := h.waits cpu
    refine ⟨w, hw.ring, hw.queued, fun r' hr' => ?_⟩
    obtain ⟨hc, hq⟩ := hw.live r' hr'
    refine ⟨hc, hposted r' ?_ hq⟩
    rintro rfl
    subst hc
    exact hwaiting w hw hr'
  · refine hhands rfl cpu rt (h.serve cpu rt ht) ?_
    rintro rfl rfl
    refine htaken ?_
    have hset := h.setsched p r (CallerPoint.stored_of_posted hreq)
    have ht : s.thread r.cpu = .serve r.rt := ht
    unfold RequestState.taken
    rw [ht]
    exact List.mem_singleton.2 hset.symm
  · refine ⟨hhands rfl cpu rt (h.wake cpu rt ht).1 ?_, (h.wake cpu rt ht).2⟩
    rintro rfl rfl
    exact hwake ht
  · rcases hother q with he | he
    · dsimp only [RequestState.setPoint] at hq
      rw [he] at hq
      simp at hq
    · exact h.awake q r' (he ▸ hq) ha'
  · rcases List.mem_cons.1 hx with rfl | hx
    · exact hserved
    · exact h.returned x hx
  · rintro rfl
    rcases hp with hp | hp <;> cases hq.symm.trans hp

/-! ## The steps of a thread -/

/-- The thread goes on with nothing in its hands. -/
theorem idleThread (h : RequestInv s) {x y : ThreadPoint} (hx : s.thread cpu = x)
    (hnone : ∀ rt, x ≠ .serve rt) (hy : y = .take ∨ y = .schedule) (awake threadAwake : ℕ → Bool)
    (hawake : ∀ q r, s.point q = .schedule r ∨ s.point q = .blocked r → awake q = true →
      r ∈ s.served r.cpu ∧ Function.update s.thread cpu y r.cpu ≠ .wake r.rt)
    (hrest : ∀ cpu', Function.update s.thread cpu y cpu' = .schedule → threadAwake cpu' = false →
      s.Settled cpu') :
    RequestInv { s.setThread cpu y with awake := awake, threadAwake := threadAwake } := by
  have hthread : ∀ {cpu' z}, Function.update s.thread cpu y cpu' = z →
      z ≠ .take → z ≠ .schedule → s.thread cpu' = z := by
    rintro cpu' z hz hz₁ hz₂
    by_cases hc : cpu' = cpu
    · subst hc
      rw [Function.update_self] at hz
      subst hz
      rcases hy with rfl | rfl
      · exact absurd rfl hz₁
      · exact absurd rfl hz₂
    · rwa [Function.update_of_ne hc] at hz
  have htaken : ∀ cpu', RequestState.taken { s.setThread cpu y with awake, threadAwake } cpu' =
      s.taken cpu' := by
    intro cpu'
    unfold RequestState.taken RequestState.setThread
    dsimp only
    by_cases hc : cpu' = cpu
    · subst hc
      rw [Function.update_self, hx]
      rcases hy with rfl | rfl <;> cases x <;> first | rfl | exact absurd rfl (hnone _)
    · rw [Function.update_of_ne hc]
  refine ⟨h.caller, h.single, h.setsched, h.next, h.unqueued, h.nodup, fun cpu => ?_,
    fun cpu rt ht => ?_, fun cpu rt ht => ?_, hawake, h.returned, hrest⟩
  · obtain ⟨w, hw⟩ := h.waits cpu
    refine ⟨w, hw.ring, ?_, hw.live⟩
    rw [htaken]
    exact hw.queued
  · exact h.serve cpu rt (hthread ht nofun nofun)
  · exact h.wake cpu rt (hthread ht nofun nofun)

/-- The thread takes the first request of its list. -/
theorem take (h : RequestInv s) (hx : s.thread cpu = .take)
    (hhead : (s.links.head (.head cpu)).bind RequestNode.container = some rt) :
    RequestInv { s.setThread cpu (.serve rt) with links := s.links.del (.entry rt) } := by
  obtain ⟨w, hw⟩ := h.waits cpu
  -- the head of the ring is the oldest request that waits
  obtain ⟨r, w, rfl, rfl⟩ : ∃ r w', w = r :: w' ∧ r.rt = rt := by
    rw [hw.ring.head_eq] at hhead
    cases w with
    | nil => cases hhead
    | cons r w => exact ⟨r, w, rfl, Option.some.inj hhead⟩
  obtain ⟨hc, hr⟩ := hw.live r List.mem_cons_self
  have hset := h.setsched _ r (CallerPoint.stored_of_posted hr)
  have hself : Function.update s.thread cpu (.serve r.rt) cpu = .serve r.rt :=
    Function.update_self ..
  have hthread : ∀ {cpu'}, cpu' ≠ cpu →
      Function.update s.thread cpu (.serve r.rt) cpu' = s.thread cpu' := fun hne =>
    Function.update_of_ne hne ..
  refine ⟨h.caller, h.single, h.setsched, h.next, h.unqueued, h.nodup, fun cpu' => ?_,
    fun cpu' rt ht => ?_, fun cpu' rt ht => ?_, fun q r' hq ha => ?_, h.returned,
    fun cpu' ht ha => ?_⟩
  · by_cases hcpu : cpu' = cpu
    · subst hcpu
      refine ⟨w, Links.IsRing.del (l := []) hw.ring, ?_, fun r' hr' =>
        hw.live r' (List.mem_cons_of_mem r hr')⟩
      have htaken : s.taken cpu' = [] := by
        unfold RequestState.taken
        rw [hx]
      have hq := hw.queued
      rw [htaken, List.append_nil] at hq
      unfold RequestState.taken RequestState.setThread
      dsimp only
      rw [hself, hq]
      dsimp only
      rw [hset, List.append_assoc]
      rfl
    · obtain ⟨w', hw'⟩ := h.waits cpu'
      have hframe : ∀ y ∈ RequestNode.head cpu' :: w'.map (fun r => .entry r.rt),
          (s.links.del (.entry r.rt)).next y = s.links.next y ∧
          (s.links.del (.entry r.rt)).prev y = s.links.prev y := fun y hy =>
        hw.ring.del_frame List.mem_cons_self (h.disjoint hw hw' hcpu y hy)
      refine ⟨w', hw'.ring.congr (fun y hy => (hframe y hy).1) (fun y hy => (hframe y hy).2), ?_,
        hw'.live⟩
      unfold RequestState.taken RequestState.setThread
      dsimp only
      rw [hthread hcpu]
      exact hw'.queued
  · by_cases hcpu : cpu' = cpu
    · subst hcpu
      have he : r.rt = rt := ThreadPoint.serve.inj (hself.symm.trans ht)
      exact ⟨r, he, hc, hr⟩
    · exact h.serve cpu' rt ((hthread hcpu).symm.trans ht)
  · by_cases hcpu : cpu' = cpu
    · subst hcpu
      cases hself.symm.trans ht
    · exact h.wake cpu' rt ((hthread hcpu).symm.trans ht)
  · obtain ⟨hs, hne⟩ := h.awake q r' hq ha
    refine ⟨hs, fun ht => ?_⟩
    by_cases hcpu : r'.cpu = cpu
    · rw [hcpu] at ht
      cases hself.symm.trans ht
    · exact hne ((hthread hcpu).symm.trans ht)
  · by_cases hcpu : cpu' = cpu
    · subst hcpu
      cases hself.symm.trans ht
    · exact h.rest cpu' ((hthread hcpu).symm.trans ht) ha

/-- `__set_scheduler` is called for the request that the thread has taken. -/
theorem served (h : RequestInv s) (hx : s.thread cpu = .serve rt) (core : State) :
    RequestInv { s.setThread cpu (.wake rt) with
      core := core
      served := Function.update s.served cpu (s.served cpu ++ [s.setsched rt]) } := by
  have hhands := h.serve cpu rt hx
  obtain ⟨hrt, hcpu, hlive⟩ := h.setsched_of_inHands hhands
  have htaken : s.taken cpu = [s.setsched rt] := by
    unfold RequestState.taken
    rw [hx]
  have hself : Function.update s.thread cpu (.wake rt) cpu = .wake rt := Function.update_self ..
  have hthread : ∀ {cpu'}, cpu' ≠ cpu →
      Function.update s.thread cpu (.wake rt) cpu' = s.thread cpu' := fun hne =>
    Function.update_of_ne hne ..
  -- what was served stays served
  have hmono : ∀ {cpu' r}, r ∈ s.served cpu' →
      r ∈ Function.update s.served cpu (s.served cpu ++ [s.setsched rt]) cpu' := by
    intro cpu' r hr
    by_cases hc : cpu' = cpu
    · subst hc
      rw [Function.update_self]
      exact List.mem_append_left _ hr
    · rwa [Function.update_of_ne hc]
  refine ⟨h.caller, h.single, h.setsched, h.next, h.unqueued, h.nodup, fun cpu' => ?_,
    fun cpu' rt' ht => ?_, fun cpu' rt' ht => ?_, fun q r hq ha => ?_,
    fun x hx => hmono (h.returned x hx), fun cpu' ht ha => ?_⟩
  · obtain ⟨w, hw⟩ := h.waits cpu'
    refine ⟨w, hw.ring, ?_, hw.live⟩
    have hq := hw.queued
    unfold RequestState.taken RequestState.setThread
    dsimp only
    by_cases hc : cpu' = cpu
    · subst hc
      rw [htaken] at hq
      rw [hself, Function.update_self, hq, List.append_nil]
    · rw [hthread hc, Function.update_of_ne hc]
      exact hq
  · by_cases hc : cpu' = cpu
    · subst hc
      cases hself.symm.trans ht
    · exact h.serve cpu' rt' ((hthread hc).symm.trans ht)
  · by_cases hc : cpu' = cpu
    · subst hc
      have he : rt = rt' := ThreadPoint.wake.inj (hself.symm.trans ht)
      subst he
      refine ⟨hhands, ?_⟩
      change s.setsched rt ∈ Function.update s.served cpu' _ cpu'
      rw [Function.update_self]
      exact List.mem_append_right _ (List.mem_singleton.2 rfl)
    · obtain ⟨hh, hs⟩ := h.wake cpu' rt' ((hthread hc).symm.trans ht)
      exact ⟨hh, hmono hs⟩
  · obtain ⟨hs, hne⟩ := h.awake q r hq ha
    refine ⟨hmono hs, fun ht => ?_⟩
    by_cases hc : r.cpu = cpu
    · -- the request in the thread's hands has not been served yet
      rw [hc] at ht
      have he : rt = r.rt := ThreadPoint.wake.inj (hself.symm.trans ht)
      have hreq := CallerPoint.stored_of_posted (CallerPoint.posted_of_waiting hq)
      refine (h.not_inHands hq ha).1 ?_
      rw [hc, htaken, he, h.setsched q r hreq]
      exact List.mem_singleton.2 rfl
    · exact hne ((hthread hc).symm.trans ht)
  · by_cases hc : cpu' = cpu
    · subst hc
      cases hself.symm.trans ht
    · rcases h.rest cpu' ((hthread hc).symm.trans ht) ha with he | hw
      · exact Or.inl ((Function.update_of_ne hc ..).trans he)
      · exact Or.inr hw

/-- The thread wakes the caller of the request that it has served. -/
theorem wakeUp (h : RequestInv s) (hx : s.thread cpu = .wake rt) :
    RequestInv { s.setThread cpu .take with
      awake := Function.update s.awake (s.setsched rt).caller true } := by
  obtain ⟨hhands, hserved⟩ := h.wake cpu rt hx
  obtain ⟨hrt, hcpu, hlive⟩ := h.setsched_of_inHands hhands
  have hself : Function.update s.thread cpu ThreadPoint.take cpu = .take := Function.update_self ..
  refine h.idleThread hx nofun (Or.inl rfl) _ s.threadAwake (fun q r hq ha => ?_) fun cpu' ht ha => ?_
  rotate_left
  · by_cases hc : cpu' = cpu
    · subst hc
      cases hself.symm.trans ht
    · exact h.rest cpu' ((Function.update_of_ne hc ..).symm.trans ht) ha
  by_cases hc : q = (s.setsched rt).caller
  · have hr : r = s.setsched rt := by
      have hp : (s.point q).posted = some r := CallerPoint.posted_of_waiting hq
      rw [hc, hlive] at hp
      exact (Option.some.inj hp).symm
    subst hr
    rw [hcpu, hself]
    exact ⟨hserved, nofun⟩
  · rw [Function.update_of_ne hc] at ha
    obtain ⟨hs, hne⟩ := h.awake q r hq ha
    refine ⟨hs, fun ht => ?_⟩
    by_cases hrc : r.cpu = cpu
    · rw [hrc, hself] at ht
      cases ht
    · rw [Function.update_of_ne hrc] at ht
      exact hne ht

end RequestInv

/-! ## Runs -/

/-- A request is made only for a task that has none. -/
def RequestOp.Alone (s : RequestState) : RequestOp → Prop
  | call _ _ rt _ _ => ∀ q r, (s.point q).request = some r → r.rt ≠ rt
  | caller _ | thread _ _ => True

theorem RequestInv.callerStep (h : RequestInv s) (hs : s.caller p = some s') : RequestInv s' := by
  unfold RequestState.caller at hs
  split at hs
  · cases hs
  · rename_i r hp
    cases hs
    exact h.init hp
  · rename_i r hp
    cases hs
    exact h.add hp
  · -- the wake-up of the thread
    rename_i r hp
    cases hs
    refine h.advance (r := r) (x := .setState r) s.awake _ (by rw [hp]; rfl) rfl
      (fun q r' hq ha => ?_) fun cpu _ ha => ?_
    · by_cases hqp : q = p
      · subst hqp
        rw [Function.update_self] at hq
        simp at hq
      · rw [Function.update_of_ne hqp] at hq
        exact h.awake q r' hq ha
    · have hc : cpu ≠ r.cpu := by
        rintro rfl
        rw [Function.update_self] at ha
        cases ha
      rw [Function.update_of_ne hc] at ha
      exact ⟨ha, fun _ => hc.symm⟩
  · -- the state of the caller is set, and it is asleep from then on
    rename_i r hp
    cases hs
    refine h.advance (r := r) (x := .schedule r) _ s.threadAwake (by rw [hp]; rfl) rfl
      (fun q r' hq ha => ?_) fun cpu _ ha => ⟨ha, fun hw => by cases hw.symm.trans hp⟩
    by_cases hqp : q = p
    · subst hqp
      rw [Function.update_self] at ha
      cases ha
    · rw [Function.update_of_ne hqp] at hq ha
      exact h.awake q r' hq ha
  · -- `schedule` returns at once when it has been woken in between
    rename_i r hp
    split at hs
    · rename_i ha
      cases hs
      exact h.finish (Or.inl hp) ha
    · rename_i ha
      cases hs
      refine h.advance (r := r) (x := .blocked r) s.awake s.threadAwake (by rw [hp]; rfl) rfl
        (fun q r' hq ha' => ?_) fun cpu _ ha => ⟨ha, fun hw => by cases hw.symm.trans hp⟩
      by_cases hqp : q = p
      · exact absurd (hqp ▸ ha') ha
      · rw [Function.update_of_ne hqp] at hq
        exact h.awake q r' hq ha'
  · rename_i r hp
    split at hs
    · rename_i ha
      cases hs
      exact h.finish (Or.inr hp) ha
    · cases hs

/-- A thread that finds its list empty has served all requests that were put in it. -/
theorem RequestInv.served_eq_queued (h : RequestInv s) (hx : s.thread cpu = .take)
    (hhead : (s.links.head (.head cpu)).bind RequestNode.container = none) :
    s.served cpu = s.queued cpu := by
  obtain ⟨w, hw⟩ := h.waits cpu
  have htaken : s.taken cpu = [] := by
    unfold RequestState.taken
    rw [hx]
  rw [hw.ring.head_eq] at hhead
  cases w with
  | nil =>
    have hq := hw.queued
    rw [htaken, List.append_nil, List.append_nil] at hq
    exact hq.symm
  | cons r w => cases hhead

theorem RequestInv.threadStep (h : RequestInv s) {k : Kernel} (hs : s.threadStep cpu c k = some s') :
    RequestInv s' := by
  -- threads that look for work wake nobody
  have hawake : ∀ {y : ThreadPoint}, (∀ rt, y ≠ .wake rt) → ∀ q r,
      s.point q = .schedule r ∨ s.point q = .blocked r → s.awake q = true →
      r ∈ s.served r.cpu ∧ Function.update s.thread cpu y r.cpu ≠ .wake r.rt := by
    intro y hy q r hq ha
    obtain ⟨hs, hne⟩ := h.awake q r hq ha
    refine ⟨hs, ?_⟩
    by_cases hc : r.cpu = cpu
    · rw [hc, Function.update_self]
      exact hy _
    · rwa [Function.update_of_ne hc]
  unfold RequestState.threadStep at hs
  split at hs
  · rename_i hx
    split at hs
    · rename_i hhead
      cases hs
      refine h.idleThread hx nofun (Or.inr rfl) s.awake s.threadAwake (hawake nofun)
        fun cpu' ht ha => ?_
      by_cases hc : cpu' = cpu
      · exact Or.inl (hc ▸ h.served_eq_queued hx hhead)
      · exact h.rest cpu' ((Function.update_of_ne hc ..).symm.trans ht) ha
    · rename_i rt hhead
      cases hs
      exact h.take hx hhead
  · rename_i hx
    split at hs
    · cases hs
      refine h.idleThread hx nofun (Or.inl rfl) s.awake _ (hawake nofun) fun cpu' ht ha => ?_
      by_cases hc : cpu' = cpu
      · subst hc
        cases (Function.update_self ..).symm.trans ht
      · rw [Function.update_of_ne hc] at ht ha
        exact h.rest cpu' ht ha
    · cases hs
  · rename_i rt hx
    cases hs
    exact h.served hx _
  · rename_i rt hx
    cases hs
    exact h.wakeUp hx

/-- **One step.** -/
theorem RequestInv.step (h : RequestInv s) {op : RequestOp} (hop : op.Alone s)
    (hs : requestStep c s op = some s') : RequestInv s' := by
  cases op with
  | call p cpu rt policy prio =>
    rw [requestStep] at hs
    split at hs
    · rename_i hp
      cases hs
      exact h.call hp hop
    · cases hs
  | caller p => exact h.callerStep hs
  | thread cpu k => exact h.threadStep hs

theorem RequestInv.start (core : State) (links : Links RequestNode) :
    RequestInv (requestInit core links) := by
  refine ⟨nofun, nofun, nofun, nofun, fun p r hp => ?_, fun cpu => List.nodup_nil, fun cpu => ?_,
    nofun, nofun, fun p r hp => ?_, nofun, nofun⟩
  · rcases hp with hp | hp <;> cases hp
  · exact ⟨[], ⟨List.nodup_singleton _, rfl, rfl⟩, rfl, nofun⟩
  · rcases hp with hp | hp <;> cases hp

/-- The thread of `cpu` sleeps, and no caller is about to wake it. -/
def RequestState.Rests (s : RequestState) (cpu : ℕ) : Prop :=
  s.thread cpu = .schedule ∧ s.threadAwake cpu = false ∧ ∀ p r, s.point p = .wake r → r.cpu ≠ cpu

/-- Every request is served at most once, in the order of the list, before its caller goes on,
and before the thread rests. -/
structure RequestState.ServedInOrder (s : RequestState) : Prop where
  order : ∀ cpu, s.served cpu <+: s.queued cpu
  once : ∀ cpu, (s.queued cpu).Nodup
  before : ∀ x ∈ s.returned, x.1 ∈ s.served x.1.cpu
  all : ∀ cpu, s.Rests cpu → s.served cpu = s.queued cpu

theorem RequestInv.servedInOrder (h : RequestInv s) : s.ServedInOrder where
  order cpu := by
    obtain ⟨w, hw⟩ := h.waits cpu
    rw [hw.queued, List.append_assoc]
    exact List.prefix_append _ _
  once := h.nodup
  before := h.returned
  all cpu := by
    rintro ⟨ht, ha, hw⟩
    rcases h.rest cpu ht ha with he | ⟨p, r, hp, hc⟩
    · exact he
    · exact absurd hc (hw p r hp)

/-! ## One request -/

theorem caller_frame (hs : s.caller p = some s') :
    s'.core = s.core ∧ s'.served = s.served ∧
    (∀ q r, (s'.point q).request = some r → (s.point q).request = some r) ∧
    (∀ cpu, ∀ r ∈ s'.queued cpu, r ∈ s.queued cpu ∨ (s.point p).request = some r) ∧
    ∀ x ∈ s'.returned, x ∈ s.returned ∨ ∃ r, (s.point p).request = some r ∧ x = (r, true) := by
  have hpoint : ∀ {x : CallerPoint}, (∀ r, x.request = some r → (s.point p).request = some r) →
      ∀ q r, (Function.update s.point p x q).request = some r → (s.point q).request = some r := by
    intro x hx q r hq
    by_cases hqp : q = p
    · subst hqp
      rw [Function.update_self] at hq
      exact hx r hq
    · rwa [Function.update_of_ne hqp] at hq
  unfold RequestState.caller at hs
  split at hs
  · cases hs
  · rename_i r hp
    cases hs
    rw [hp] at hpoint ⊢
    exact ⟨rfl, rfl, hpoint fun _ => id, fun _ _ => Or.inl, fun _ => Or.inl⟩
  · rename_i r hp
    cases hs
    rw [hp] at hpoint ⊢
    refine ⟨rfl, rfl, hpoint fun _ => id, fun cpu r' hr' => ?_, fun _ => Or.inl⟩
    dsimp only [RequestState.setPoint] at hr'
    by_cases hc : cpu = r.cpu
    · subst hc
      rw [Function.update_self, List.mem_append, List.mem_singleton] at hr'
      rcases hr' with hr' | rfl
      · exact Or.inl hr'
      · exact Or.inr rfl
    · rw [Function.update_of_ne hc] at hr'
      exact Or.inl hr'
  · rename_i r hp
    cases hs
    rw [hp] at hpoint ⊢
    exact ⟨rfl, rfl, hpoint fun _ => id, fun _ _ => Or.inl, fun _ => Or.inl⟩
  · rename_i r hp
    cases hs
    rw [hp] at hpoint ⊢
    exact ⟨rfl, rfl, hpoint fun _ => id, fun _ _ => Or.inl, fun _ => Or.inl⟩
  · rename_i r hp
    rw [hp] at hpoint ⊢
    split at hs <;> cases hs
    · refine ⟨rfl, rfl, hpoint nofun, fun _ _ => Or.inl, fun x hx => ?_⟩
      rcases List.mem_cons.1 hx with rfl | hx
      · exact Or.inr ⟨r, rfl, rfl⟩
      · exact Or.inl hx
    · exact ⟨rfl, rfl, hpoint fun _ => id, fun _ _ => Or.inl, fun _ => Or.inl⟩
  · rename_i r hp
    rw [hp] at hpoint ⊢
    split at hs <;> cases hs
    refine ⟨rfl, rfl, hpoint nofun, fun _ _ => Or.inl, fun x hx => ?_⟩
    rcases List.mem_cons.1 hx with rfl | hx
    · exact Or.inr ⟨r, rfl, rfl⟩
    · exact Or.inl hx

theorem threadStep_frame {k : Kernel} (hs : s.threadStep cpu c k = some s') :
    s'.point = s.point ∧ s'.queued = s.queued ∧ s'.returned = s.returned ∧
    ((s'.core = s.core ∧ s'.served = s.served) ∨ ∃ rt, s.thread cpu = .serve rt ∧
      s'.core = (setScheduler' c k s.core rt (s.setsched rt).prio).1 ∧
      s'.served = Function.update s.served cpu (s.served cpu ++ [s.setsched rt])) := by
  unfold RequestState.threadStep at hs
  split at hs
  · split at hs <;> cases hs <;> exact ⟨rfl, rfl, rfl, Or.inl ⟨rfl, rfl⟩⟩
  · split at hs <;> cases hs
    exact ⟨rfl, rfl, rfl, Or.inl ⟨rfl, rfl⟩⟩
  · rename_i rt hx
    cases hs
    exact ⟨rfl, rfl, rfl, Or.inr ⟨rt, hx, rfl, rfl⟩⟩
  · cases hs
    exact ⟨rfl, rfl, rfl, Or.inl ⟨rfl, rfl⟩⟩

/-- `r` is the only request, and the core is what it was when `r` was made, or what
`__set_scheduler` has made of that. -/
structure LoneInv (c : Config) (k : Kernel) (core : State) (r : Request) (s : RequestState) :
    Prop where
  inv : RequestInv s
  only : ∀ p r', (s.point p).request = some r' → r' = r
  queued : ∀ cpu, ∀ r' ∈ s.queued cpu, r' = r
  returned : ∀ x ∈ s.returned, x = (r, true)
  before : r ∉ s.served r.cpu → s.core = core
  after : r ∈ s.served r.cpu → s.core = (setScheduler' c k core r.rt r.prio).1

/-- The steps of callers that are in a request, and of the threads, when Linux answers as `k`. -/
def RequestOp.OfRequest (k : Kernel) : RequestOp → Prop
  | call .. => False
  | caller _ => True
  | thread _ k' => k' = k

theorem LoneInv.step {k : Kernel} {core : State} (h : LoneInv c k core r s) {op : RequestOp}
    (hop : op.OfRequest k) (hs : requestStep c s op = some s') : LoneInv c k core r s' := by
  cases op with
  | call => exact hop.elim
  | caller p =>
    obtain ⟨hcore, hserved, hpoint, hqueued, hreturned⟩ := caller_frame hs
    refine ⟨h.inv.callerStep hs, fun q r' hq => h.only q r' (hpoint q r' hq), fun cpu r' hr' => ?_,
      fun x hx => ?_, ?_, ?_⟩
    · rcases hqueued cpu r' hr' with hr' | hr'
      · exact h.queued cpu r' hr'
      · exact h.only p r' hr'
    · rcases hreturned x hx with hx | ⟨r', hr', rfl⟩
      · exact h.returned x hx
      · rw [h.only p r' hr']
    · rw [hserved, hcore]
      exact h.before
    · rw [hserved, hcore]
      exact h.after
  | thread cpu k' =>
    -- the answers of Linux are those of the request
    cases hop
    obtain ⟨hpoint, hqueued, hreturned, hcore⟩ := threadStep_frame hs
    refine ⟨h.inv.threadStep hs, ?_, ?_, ?_, ?_, ?_⟩
    · rw [hpoint]
      exact h.only
    · rw [hqueued]
      exact h.queued
    · rw [hreturned]
      exact h.returned
    all_goals
      rcases hcore with ⟨hcore, hserved⟩ | ⟨rt, hx, hcore, hserved⟩
    · rw [hserved, hcore]
      exact h.before
    · -- the request is in the thread's hands, so it is served by this step
      obtain ⟨hrt, hcpu, hlive⟩ := h.inv.setsched_of_inHands (h.inv.serve cpu rt hx)
      have hr := h.only _ _ (CallerPoint.request_of_posted hlive)
      rw [hr] at hcpu
      rw [hserved, hr, hcpu, Function.update_self]
      exact fun hn => absurd (List.mem_append_right _ (List.mem_singleton.2 rfl)) hn
    · rw [hserved, hcore]
      exact h.after
    · obtain ⟨hrt, hcpu, hlive⟩ := h.inv.setsched_of_inHands (h.inv.serve cpu rt hx)
      have hr := h.only _ _ (CallerPoint.request_of_posted hlive)
      rw [hr] at hcpu hrt
      -- a request is served once
      have hnot : r ∉ s.served r.cpu := by
        obtain ⟨w, hw⟩ := h.inv.waits cpu
        have hn := h.inv.nodup cpu
        have htaken : s.taken cpu = [r] := by
          unfold RequestState.taken
          rw [hx, ← hr]
        rw [hw.queued, htaken] at hn
        intro hm
        rw [hcpu] at hm
        exact (List.nodup_append.1 (List.nodup_append.1 hn).1).2.2 r hm r
          (List.mem_singleton.2 rfl) rfl
      -- up to here, nothing has changed the state of the core
      intro _
      rw [hcore, hr, h.before hnot, hrt]

theorem LoneInv.run {k : Kernel} {core : State} {ops : List RequestOp} (h : LoneInv c k core r s)
    (hops : ∀ op ∈ ops, op.OfRequest k) (hs : final (requestStep c) s ops = some s') :
    LoneInv c k core r s' := by
  induction ops generalizing s with
  | nil =>
    rw [final, Option.some.injEq] at hs
    exact hs ▸ h
  | cons op ops ih =>
    obtain ⟨s₁, hs₁, hs⟩ := Option.bind_eq_some_iff.1 hs
    exact ih (h.step (hops op List.mem_cons_self) hs₁)
      (fun op hop => hops op (List.mem_cons_of_mem _ hop)) hs

/-- A request, run by the caller and the threads until the caller goes on, returns the value and
leaves the state of the direct call. -/
def RequestAgrees (c : Config) (k : Kernel) (core : State) (links : Links RequestNode)
    (p cpu rt : ℕ) (policy prio : ℤ) : Prop :=
  (∃ ops s, (∀ op ∈ ops, op.OfRequest k) ∧
    final (requestStep c) (requestInit core links) (.call p cpu rt policy prio :: ops) = some s ∧
    s.returned ≠ []) ∧
  ∀ ops s, (∀ op ∈ ops, op.OfRequest k) →
    final (requestStep c) (requestInit core links) (.call p cpu rt policy prio :: ops) = some s →
    ∀ x ∈ s.returned,
      (s.core, x.2) = setScheduler c { k with capable := true } core rt policy prio

/-- Linux accepts what the class of the task asks it for. -/
def Kernel.Accepts (c : Config) (k : Kernel) (core : State) (rt : ℕ) (policy prio : ℤ) : Prop :=
  k.refuses c ((setPolicy c core rt policy).task rt) prio
    ((setPolicy c core rt policy).task rt).cls = false

instance {k : Kernel} {core : State} {policy prio : ℤ} :
    Decidable (k.Accepts c core rt policy prio) :=
  inferInstanceAs (Decidable (_ = false))

theorem loneInv_call {k : Kernel} {core : State} {links : Links RequestNode} {policy prio : ℤ} :
    LoneInv c k (setPolicy c core rt policy) ⟨0, p, rt, cpu, prio⟩
      ((requestInit core links).call p cpu c rt policy prio) := by
  refine ⟨(RequestInv.start core links).call rfl nofun, fun q r hq => ?_, nofun, nofun,
    fun _ => rfl, nofun⟩
  by_cases hqp : q = p
  · subst hqp
    unfold RequestState.call at hq
    dsimp only at hq
    rw [Function.update_self] at hq
    exact (Option.some.inj hq).symm
  · unfold RequestState.call at hq
    dsimp only at hq
    rw [Function.update_of_ne hqp] at hq
    cases hq

/-- The caller blocks, the thread serves the request and wakes it, and the caller goes on. -/
theorem exists_return (c : Config) (k : Kernel) (core : State) (links : Links RequestNode)
    (p cpu rt : ℕ) (policy prio : ℤ) :
    ∃ ops s, (∀ op ∈ ops, RequestOp.OfRequest k op) ∧
      final (requestStep c) (requestInit core links) (.call p cpu rt policy prio :: ops) = some s ∧
      s.returned ≠ [] := by
  let ops : List RequestOp := [.caller p, .caller p, .caller p, .caller p, .caller p,
    .thread cpu k, .thread cpu k, .thread cpu k, .caller p]
  have hrun : ((final (requestStep c) (requestInit core links)
      (.call p cpu rt policy prio :: ops)).any fun s => !s.returned.isEmpty) = true := by
    simp [ops, final, requestStep, requestInit, RequestState.call, RequestState.caller,
      RequestState.threadStep, RequestState.setPoint, RequestState.setThread, Links.init,
      Links.addPrev, Links.head, Links.isEmpty, initHeads, RequestNode.container]
  obtain ⟨s, hs, hr⟩ := (Option.any_eq_true ..).1 hrun
  exact ⟨ops, s, by simp [ops, RequestOp.OfRequest], hs, by simpa using hr⟩

theorem requestAgrees_iff (c : Config) (k : Kernel) (core : State) (links : Links RequestNode)
    (p cpu rt : ℕ) (policy prio : ℤ) :
    RequestAgrees c k core links p cpu rt policy prio ↔ k.Accepts c core rt policy prio := by
  have hdirect : setScheduler c { k with capable := true } core rt policy prio =
      setScheduler' c k (setPolicy c core rt policy) rt prio := rfl
  -- every run of the request ends with the state of the direct call, and with `true`
  have hrun : ∀ ops s, (∀ op ∈ ops, RequestOp.OfRequest k op) →
      final (requestStep c) (requestInit core links) (.call p cpu rt policy prio :: ops) = some s →
      ∀ x ∈ s.returned, (s.core, x.2) =
        ((setScheduler' c k (setPolicy c core rt policy) rt prio).1, true) := by
    intro ops s hops hs x hx
    have hs : final (requestStep c) ((requestInit core links).call p cpu c rt policy prio) ops =
        some s := hs
    have h := loneInv_call.run hops hs
    have hr := h.returned x hx
    have hmem := h.inv.returned x hx
    rw [hr] at hmem ⊢
    rw [h.after hmem]
  have hvalue : (setScheduler' c k (setPolicy c core rt policy) rt prio).2 = true ↔
      k.Accepts c core rt policy prio := by
    unfold Kernel.Accepts
    rw [setScheduler'_snd, classSetScheduler_ok, Bool.not_eq_true']
  obtain ⟨ops, s, hops, hs, hne⟩ := exists_return c k core links p cpu rt policy prio
  unfold RequestAgrees
  rw [hdirect, ← hvalue]
  constructor
  · rintro ⟨-, h⟩
    obtain ⟨x, hx⟩ := List.exists_mem_of_ne_nil _ hne
    have h₁ := h ops s hops hs x hx
    rw [hrun ops s hops hs x hx] at h₁
    exact (congrArg Prod.snd h₁).symm
  · intro hv
    refine ⟨⟨ops, s, hops, hs, hne⟩, fun ops s hops hs x hx => ?_⟩
    rw [hrun ops s hops hs x hx, ← hv]

/-- **Direct and requested changes.** A request returns the value and leaves the state of the
direct call iff Linux accepts the change. In every run in which a request is made only for a task
that has none in progress, whatever the order of the steps of callers and threads, the requests
of each list are served in its order, each once, and before their callers go on. -/
theorem set_scheduler_agree (c : Config) (core : State) (links : Links RequestNode) :
    (∀ k p cpu rt policy prio, RequestAgrees c k core links p cpu rt policy prio ↔
      k.Accepts c core rt policy prio) ∧
    ∀ ops, Each (requestStep c) (fun s op => op.Alone s) (requestInit core links) ops →
      Always (requestStep c) RequestState.ServedInOrder (requestInit core links) ops := by
  refine ⟨fun k p cpu rt policy prio => requestAgrees_iff c k core links p cpu rt policy prio,
    fun ops hops => ?_⟩
  exact Always.mono (fun _ => RequestInv.servedInOrder) ops _
    (Always.of_each (fun s op s' h hc hs => h.step hc hs) ops _ (RequestInv.start core links) hops)

def RequestOp.isCall : RequestOp → Bool
  | call .. => true
  | caller _ | thread _ _ => false

/-- Two callers on one CPU queue requests for tasks 1 and 2, which are served in turn. -/
def twoRequests : List RequestOp :=
  [.call 1 0 1 reschSchedFp 10, .call 2 0 2 reschSchedFp 20, .caller 1, .caller 1, .caller 2,
    .caller 2, .caller 1, .caller 1, .caller 1, .caller 2, .caller 2, .caller 2,
    .thread 0 .accepting, .thread 0 .accepting, .thread 0 .accepting, .caller 1,
    .thread 0 .accepting, .thread 0 .accepting, .thread 0 .accepting, .caller 2]

theorem each_alone {ops : List RequestOp} (h : ops.all (fun op => !op.isCall) = true) :
    Each (requestStep c) (fun s op => op.Alone s) s ops := by
  induction ops generalizing s with
  | nil => trivial
  | cons op ops ih =>
    rw [List.all_cons, Bool.and_eq_true] at h
    refine fun s' _ => ⟨?_, ih h.2⟩
    cases op with
    | call => cases h.1
    | caller => trivial
    | thread => trivial

theorem set_scheduler_agree_two :
    let c := Config.small false
    let core := schedInit 0 fun _ => Proc.fair
    let s := requestInit core ⟨id, id⟩
    Kernel.accepting.Accepts c core 1 reschSchedFp 10 ∧
      RequestAgrees c .accepting core ⟨id, id⟩ 1 0 1 reschSchedFp 10 ∧
      Each (requestStep c) (fun s op => op.Alone s) s twoRequests ∧
      Always (requestStep c) RequestState.ServedInOrder s twoRequests ∧
      (final (requestStep c) s twoRequests).any (fun s => s.returned.length = 2) = true := by
  have hacc : Kernel.accepting.Accepts (Config.small false) (schedInit 0 fun _ => Proc.fair) 1
      reschSchedFp 10 := by decide +kernel
  have heach : Each (requestStep (Config.small false)) (fun s op => op.Alone s)
      (requestInit (schedInit 0 fun _ => Proc.fair) ⟨id, id⟩) twoRequests := by
    refine Each.cons rfl nofun (Each.cons rfl (fun q r hq => ?_) ?_)
    · by_cases hq1 : q = 1
      · subst hq1
        cases hq
        decide
      · have hidle : (Function.update (fun _ : ℕ => CallerPoint.idle) 1
            (.init ⟨0, 1, 1, 0, 10⟩) q).request = some r := hq
        rw [Function.update_of_ne hq1] at hidle
        cases hidle
    · exact each_alone (by decide)
  obtain ⟨hagree, hrun⟩ := set_scheduler_agree (Config.small false) (schedInit 0 fun _ => Proc.fair)
    ⟨id, id⟩
  exact ⟨hacc, (hagree .accepting 1 0 1 reschSchedFp 10).2 hacc, heach, hrun _ heach,
    by decide +kernel⟩

/-- Linux refuses the change, and the request returns `true`. Then two callers make a request for
task 1: the second one initialises the node again, and only its own request is served. -/
theorem set_scheduler_not_agree :
    let c := Config.small false
    let core := schedInit 0 fun _ => Proc.fair
    ¬ RequestAgrees c .refusing core ⟨id, id⟩ 1 0 1 reschSchedFp 10 ∧
      ¬ Always (requestStep c) RequestState.ServedInOrder (requestInit core ⟨id, id⟩)
        [.call 1 0 1 reschSchedFp 10, .call 2 0 1 reschSchedFp 20, .caller 1, .caller 1, .caller 2,
          .caller 2, .thread 0 .accepting, .thread 0 .accepting] := by
  refine ⟨fun h => ?_, fun h => ?_⟩
  · have hacc := (requestAgrees_iff _ _ _ _ _ _ _ _ _).1 h
    exact absurd hacc (by decide +kernel)
  · obtain ⟨s, hs, htest⟩ := h.final_test
      (fun s => decide (s.queued 0 = [⟨0, 1, 1, 0, 10⟩, ⟨1, 2, 1, 0, 20⟩] ∧
        s.served 0 = [⟨1, 2, 1, 0, 20⟩])) (by decide +kernel)
    obtain ⟨hq, hd⟩ := of_decide_eq_true htest
    have hpre := hs.order 0
    rw [hq, hd] at hpre
    exact absurd hpre (by decide)

end Resch
