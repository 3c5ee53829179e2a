import Mathlib.Data.List.Range
import Resch.Lib.Checked

/-!
# Searching for the cheapest entry below a bound

* `least`: the loop that keeps the cheapest entry so far, beginning with a bound that is no entry's.
  `least_spec`: the result is the first of the cheapest entries, if there is one below the bound.
* `search`: the loop with a test for each entry and computations that may stop with a fault.
* `search_none_iff`: the search finds nothing iff no number that passes costs less than the bound.
* `search_isLeast_iff`: the search among the numbers below `n` is right iff no number passes the
  test, or one that passes is below the bound.
-/

namespace Resch.Lib

variable {α ε : Type} {l : List α} {best : α × ℕ} {a : α}

def least (cost : α → ℕ) (l : List α) (best : α × ℕ) : α × ℕ :=
  l.foldl (fun best a => if cost a < best.2 then (a, cost a) else best) best

/-- **The first of the cheapest entries**, or the bound that the loop began with -/
theorem least_spec (cost : α → ℕ) (l : List α) (best : α × ℕ) :
    (least cost l best = best ∧ ∀ a ∈ l, best.2 ≤ cost a) ∨
      ∃ u x v, l = u ++ x :: v ∧ least cost l best = (x, cost x) ∧ cost x < best.2 ∧
        (∀ a ∈ u, cost x < cost a) ∧ ∀ a ∈ v, cost x ≤ cost a := by
  induction l using List.reverseRecOn with
  | nil => exact Or.inl ⟨rfl, fun a ha => nomatch ha⟩
  | append_singleton l a ih =>
    have hstep : least cost (l ++ [a]) best =
        if cost a < (least cost l best).2 then (a, cost a) else least cost l best := by
      unfold least
      rw [List.foldl_append]
      rfl
    rw [hstep]
    rcases ih with ⟨hsame, hge⟩ | ⟨u, x, v, hl, hx, hlt, hu, hv⟩
    · rw [hsame]
      by_cases ha : cost a < best.2
      · rw [if_pos ha]
        refine Or.inr ⟨l, a, [], rfl, rfl, ha, fun b hb => ?_, fun b hb => nomatch hb⟩
        have := hge b hb
        omega
      · rw [if_neg ha]
        refine Or.inl ⟨rfl, fun b hb => ?_⟩
        rcases List.mem_append.1 hb with hb | hb
        · exact hge b hb
        · rw [List.mem_singleton.1 hb]
          omega
    · rw [hx]
      by_cases ha : cost a < cost x
      · rw [if_pos ha]
        refine Or.inr ⟨l, a, [], rfl, rfl, by omega, fun b hb => ?_, fun b hb => nomatch hb⟩
        rw [hl] at hb
        rcases List.mem_append.1 hb with hb | hb
        · have := hu b hb
          omega
        · rcases List.mem_cons.1 hb with rfl | hb
          · exact ha
          · have := hv b hb
            omega
      · rw [if_neg ha]
        refine Or.inr ⟨u, x, v ++ [a], ?_, rfl, hlt, hu, fun b hb => ?_⟩
        · rw [hl, List.append_assoc, List.cons_append]
        · rcases List.mem_append.1 hb with hb | hb
          · exact hv b hb
          · rw [List.mem_singleton.1 hb]
            omega

/-! ## With faults -/

variable {test : α → Except ε Bool} {cost : α → Except ε ℕ} {r : α × ℕ}

def search (test : α → Except ε Bool) (cost : α → Except ε ℕ) (l : List α) (best : α × ℕ) :
    Except ε (α × ℕ) :=
  l.foldlM (fun best a => do
    if ← test a then
      let u ← cost a
      return if u < best.2 then (a, u) else best
    else return best) best

/-- The test of an entry has a result, and so has its cost if it passes. -/
def Tested (test : α → Except ε Bool) (cost : α → Except ε ℕ) (a : α) : Prop :=
  ∃ b, test a = .ok b ∧ (b = true → ∃ u, cost a = .ok u)

/-- The search of tested entries is that of the entries which pass. -/
theorem search_eq {pass : α → Bool} {price : α → ℕ} (hpass : ∀ a ∈ l, test a = .ok (pass a))
    (hprice : ∀ a ∈ l, pass a = true → cost a = .ok (price a)) (best : α × ℕ) :
    search test cost l best = .ok (least price (l.filter pass) best) := by
  induction l generalizing best with
  | nil => rfl
  | cons a l ih =>
    have hrest := ih (fun b hb => hpass b (List.mem_cons_of_mem _ hb))
      fun b hb => hprice b (List.mem_cons_of_mem _ hb)
    have hcons : search test cost (a :: l) best = (do
        if ← test a then
          let u ← cost a
          return if u < best.2 then (a, u) else best
        else return best) >>= search test cost l := List.foldlM_cons ..
    rw [hcons, hpass a List.mem_cons_self]
    cases hp : pass a with
    | false =>
      rw [List.filter_cons_of_neg (by rw [hp]; exact Bool.false_ne_true)]
      exact hrest best
    | true =>
      rw [List.filter_cons_of_pos hp, hprice a List.mem_cons_self hp]
      exact hrest _

/-- The results of the tests -/
theorem exists_of_tested (h : ∀ a ∈ l, Tested test cost a) : ∃ (pass : α → Bool) (price : α → ℕ),
    (∀ a ∈ l, test a = .ok (pass a)) ∧ ∀ a ∈ l, pass a = true → cost a = .ok (price a) := by
  refine ⟨fun a => (test a).toOption.getD false, fun a => (cost a).toOption.getD 0, ?_, ?_⟩
  · intro a ha
    obtain ⟨b, hb, -⟩ := h a ha
    dsimp only
    rw [hb]
    rfl
  · intro a ha hp
    obtain ⟨b, hb, hu⟩ := h a ha
    dsimp only at hp ⊢
    rw [hb] at hp
    obtain ⟨u, hu⟩ := hu hp
    rw [hu]
    rfl

/-- The first turn of a search that has a result -/
theorem search_cons {a : α} (h : search test cost (a :: l) best = .ok r) :
    ∃ b best', test a = .ok b ∧
      (if b then cost a >>= fun u => pure (if u < best.2 then (a, u) else best)
        else pure best) = Except.ok best' ∧ search test cost l best' = .ok r := by
  have hcons : search test cost (a :: l) best = (do
      if ← test a then
        let u ← cost a
        return if u < best.2 then (a, u) else best
      else return best) >>= search test cost l := List.foldlM_cons ..
  rw [hcons] at h
  obtain ⟨best', h, hrest⟩ := bind_eq_ok.1 h
  obtain ⟨b, hb, h⟩ := bind_eq_ok.1 h
  exact ⟨b, best', hb, h, hrest⟩

theorem tested_of_search (h : search test cost l best = .ok r) : ∀ a ∈ l, Tested test cost a := by
  induction l generalizing best with
  | nil => exact fun a ha => nomatch ha
  | cons a l ih =>
    obtain ⟨b, best', hb, h, hrest⟩ := search_cons h
    intro x hx
    rcases List.mem_cons.1 hx with rfl | hx
    · refine ⟨b, hb, fun ht => ?_⟩
      rw [if_pos ht] at h
      obtain ⟨u, hu, -⟩ := bind_eq_ok.1 h
      exact ⟨u, hu⟩
    · exact ih hrest x hx

/-- What the search finds is what it began with, or an entry that passes the test. -/
theorem search_passes (h : search test cost l best = .ok r) :
    r = best ∨ r.1 ∈ l ∧ test r.1 = .ok true := by
  induction l generalizing best with
  | nil =>
    cases h
    exact Or.inl rfl
  | cons a l ih =>
    obtain ⟨b, best', hb, h, hrest⟩ := search_cons h
    rcases ih hrest with rfl | ⟨hmem, htest⟩
    · cases b with
      | false => exact Or.inl (Except.ok.inj h).symm
      | true =>
        obtain ⟨u, -, h⟩ := bind_eq_ok.1 h
        have hr := Except.ok.inj h
        split at hr
        · rw [← hr]
          exact Or.inr ⟨List.mem_cons_self, hb⟩
        · exact Or.inl hr.symm
    · exact Or.inr ⟨List.mem_cons_of_mem _ hmem, htest⟩

/-- `dst` is the least of the cheapest numbers below `n` that pass the test, and `n` if there is
none. -/
structure IsLeast (n : ℕ) (test : ℕ → Except ε Bool) (cost : ℕ → Except ε ℕ) (dst : ℕ) : Prop where
  none_iff : dst = n ↔ ∀ i < n, test i ≠ .ok true
  least : dst ≠ n → dst < n ∧ test dst = .ok true ∧ ∃ u, cost dst = .ok u ∧
    ∀ i < n, test i = .ok true → ∃ v, cost i = .ok v ∧ u ≤ v ∧ (u = v → dst ≤ i)

/-- **The search is right** iff all tests have results, and no number passes or the cost of one that
passes is below the bound. -/
theorem search_isLeast_iff {n bound : ℕ} {test : ℕ → Except ε Bool} {cost : ℕ → Except ε ℕ} :
    (∃ r, search test cost (List.range n) (n, bound) = .ok r ∧ IsLeast n test cost r.1) ↔
      (∀ i < n, Tested test cost i) ∧ ((∀ i < n, test i ≠ .ok true) ∨
        ∃ i < n, test i = .ok true ∧ ∃ u, cost i = .ok u ∧ u < bound) := by
  -- when every test returns, the search is that of a list of those that pass
  have hkey : (∀ i < n, Tested test cost i) → ∃ r,
      search test cost (List.range n) (n, bound) = .ok r ∧ (IsLeast n test cost r.1 ↔
        (∀ i < n, test i ≠ .ok true) ∨ ∃ i < n, test i = .ok true ∧ ∃ u, cost i = .ok u ∧
          u < bound) := by
    intro h
    obtain ⟨pass, price, hpass, hprice⟩ :=
      exists_of_tested fun i hi => h i (List.mem_range.1 hi)
    refine ⟨_, search_eq hpass hprice _, ?_⟩
    have htest : ∀ i < n, (test i = .ok true ↔ pass i = true) := by
      intro i hi
      rw [hpass i (List.mem_range.2 hi), Except.ok.injEq]
    have hcost : ∀ i < n, pass i = true → cost i = .ok (price i) :=
      fun i hi => hprice i (List.mem_range.2 hi)
    have hmem : ∀ i, i ∈ (List.range n).filter pass ↔ i < n ∧ pass i = true := by
      intro i
      rw [List.mem_filter, List.mem_range]
    have hlt : ((List.range n).filter pass).Pairwise (· < ·) :=
      List.pairwise_lt_range.filter _
    rcases least_spec price ((List.range n).filter pass) (n, bound) with
      ⟨hsame, hge⟩ | ⟨u, x, v, hl, hx, hb, hu, hv⟩
    · -- nothing beats the bound
      rw [hsame]
      constructor
      · intro hr
        exact Or.inl (hr.none_iff.1 rfl)
      · rintro (hno | ⟨i, hi, ht, w, hw, hwb⟩)
        · exact ⟨⟨fun _ => hno, fun _ => rfl⟩, fun hne => absurd rfl hne⟩
        · have hp := (htest i hi).1 ht
          have := hge i ((hmem i).2 ⟨hi, hp⟩)
          rw [hcost i hi hp, Except.ok.injEq] at hw
          dsimp only at this
          omega
    · -- `x` is the first with the least cost
      rw [hx]
      obtain ⟨hxn, hxp⟩ := (hmem x).1 (by rw [hl]; simp)
      refine ⟨fun _ => Or.inr ⟨x, hxn, (htest x hxn).2 hxp, price x, hcost x hxn hxp, hb⟩, fun _ => ?_⟩
      refine ⟨⟨fun he => ?_, fun hno => absurd ((htest x hxn).2 hxp) (hno x hxn)⟩, fun _ => ?_⟩
      · dsimp only at he
        omega
      · refine ⟨hxn, (htest x hxn).2 hxp, price x, hcost x hxn hxp, fun i hi ht => ?_⟩
        have hp := (htest i hi).1 ht
        have hin := (hmem i).2 ⟨hi, hp⟩
        refine ⟨price i, hcost i hi hp, ?_⟩
        rw [hl] at hin hlt
        rcases List.mem_append.1 hin with hin | hin
        · have := hu i hin
          exact ⟨by omega, fun he => by omega⟩
        · rcases List.mem_cons.1 hin with rfl | hin
          · exact ⟨le_rfl, fun _ => le_rfl⟩
          · have hafter := List.rel_of_pairwise_cons (List.pairwise_append.1 hlt).2.1 hin
            exact ⟨hv i hin, fun _ => hafter.le⟩
  constructor
  · rintro ⟨r, hr, hleast⟩
    have htested : ∀ i < n, Tested test cost i :=
      fun i hi => tested_of_search hr i (List.mem_range.2 hi)
    obtain ⟨r', hr', hiff⟩ := hkey htested
    rw [hr, Except.ok.injEq] at hr'
    subst hr'
    exact ⟨htested, hiff.1 hleast⟩
  · rintro ⟨htested, hcond⟩
    obtain ⟨r, hr, hiff⟩ := hkey htested
    exact ⟨r, hr, hiff.2 hcond⟩

/-- **Nothing is found** iff all tests have results and no number that passes costs less than the
bound. -/
theorem search_none_iff {n bound : ℕ} {test : ℕ → Except ε Bool} {cost : ℕ → Except ε ℕ} :
    (∃ r, search test cost (List.range n) (n, bound) = .ok r ∧ r.1 = n) ↔
      (∀ i < n, Tested test cost i) ∧
        ∀ i < n, test i = .ok true → ∀ u, cost i = .ok u → bound ≤ u := by
  constructor
  · rintro ⟨r, hr, hn⟩
    have htested : ∀ i ∈ List.range n, Tested test cost i := tested_of_search hr
    obtain ⟨pass, price, hpass, hprice⟩ := exists_of_tested htested
    refine ⟨fun i hi => htested i (List.mem_range.2 hi), fun i hi ht u hu => ?_⟩
    have hi := List.mem_range.2 hi
    rw [hpass i hi, Except.ok.injEq] at ht
    rw [hprice i hi ht, Except.ok.injEq] at hu
    rw [search_eq hpass hprice, Except.ok.injEq] at hr
    rcases least_spec price ((List.range n).filter pass) (n, bound) with
      ⟨-, hge⟩ | ⟨_, x, _, hl, hx, -⟩
    · exact (hge i (List.mem_filter.2 ⟨hi, ht⟩)).trans hu.le
    · have hmem : x ∈ (List.range n).filter pass := by
        rw [hl]
        exact List.mem_append_right _ List.mem_cons_self
      have hlt := List.mem_range.1 (List.mem_filter.1 hmem).1
      rw [← hr, hx] at hn
      exact absurd hn hlt.ne
  · rintro ⟨htested, hge⟩
    obtain ⟨pass, price, hpass, hprice⟩ := exists_of_tested fun i hi => htested i (List.mem_range.1 hi)
    refine ⟨_, search_eq hpass hprice _, ?_⟩
    rcases least_spec price ((List.range n).filter pass) (n, bound) with
      ⟨hsame, -⟩ | ⟨_, x, _, hl, -, hlt, -⟩
    · rw [hsame]
    · have hmem : x ∈ (List.range n).filter pass := by
        rw [hl]
        exact List.mem_append_right _ List.mem_cons_self
      obtain ⟨hx, hp⟩ := List.mem_filter.1 hmem
      have hle := hge x (List.mem_range.1 hx) ((hpass x hx).trans (congrArg _ hp)) _ (hprice x hx hp)
      exact absurd hlt (not_lt.2 hle)

end Resch.Lib
