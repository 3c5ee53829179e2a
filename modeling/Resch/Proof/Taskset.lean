import Resch.Lib.Bubble
import Resch.Spec.Taskset
import Mathlib.Data.List.GetD

/-!
# Task sets are read as they were written

Every line of the file is shorter than the reader's buffer and has its four columns, and what `atoi` reads
of a column is the number that was written there.

* `readTaskset_written`: what the reader makes of a header and lines, also when the header announces more
  or fewer tasks than there are lines.
* `readTaskset_writeTaskset`: the round trip.
* `deadlineMonotonicPriority_sorted`: the tasks are sorted by their deadlines, those of one deadline in the
  order of the file, and the priorities fall from 96 on.
-/

namespace Resch

open Lib

variable {i k n : ℕ} {t : TaskData} {ts : List TaskData} {c : Char} {line fp rest l : List Char}

/-- What `init_task` is called with for the columns of a task -/
def TaskData.start (t : TaskData) (i : ℕ) : BenchTask := initTask i t.C t.T t.D

/-! ## Lines -/

theorem nextLine_line (h : '\n' ∉ l) (h' : ∀ c ∈ l, c.toNat ≠ 0) (hlen : l.length < 255) :
    nextLine line (l ++ '\n' :: rest) = (l ++ ['\n'], rest) := by
  have hne : (l ++ '\n' :: rest).isEmpty = false := by
    rw [List.isEmpty_eq_false_iff]
    exact List.append_ne_nil_of_right_ne_nil _ (List.cons_ne_nil _ _)
  have hstr : cString (l ++ ['\n']) = l ++ ['\n'] := by
    apply cString_eq
    intro c hc
    rcases List.mem_append.1 hc with hc | hc
    · exact h' c hc
    · rw [List.mem_singleton.1 hc]
      decide
  unfold nextLine
  rw [hne, if_neg Bool.false_ne_true, show maxBuf - 1 = 255 from rfl, fgets_line h hlen, hstr]

theorem nextLine_nil : nextLine line [] = (line, []) := rfl

theorem skipComments_eq (line fp : List Char) :
    skipComments line fp = if fp = [] then (line, fp)
      else if (nextLine line fp).1.head? = some '\n' ∨ (nextLine line fp).1.head? = some '#' then
        skipComments (nextLine line fp).1 (nextLine line fp).2
      else nextLine line fp := by
  by_cases hfp : fp = []
  · rw [skipComments, dif_pos hfp, if_pos hfp]
  · have hline : nextLine line fp =
        (cString (fgets (maxBuf - 1) fp).1, (fgets (maxBuf - 1) fp).2) := by
      unfold nextLine
      rw [if_neg]
      rwa [List.isEmpty_iff]
    rw [skipComments, dif_neg hfp, if_neg hfp, hline]

/-- A comment is skipped. -/
theorem skipComments_comment (h : '\n' ∉ l) (h' : ∀ c ∈ l, c.toNat ≠ 0) (hlen : l.length < 255)
    (hl : l.head? = some '#') :
    skipComments line (l ++ '\n' :: rest) = skipComments (l ++ ['\n']) rest := by
  have hne : l ++ '\n' :: rest ≠ [] := List.append_ne_nil_of_right_ne_nil _ (List.cons_ne_nil _ _)
  rw [skipComments_eq, if_neg hne, nextLine_line h h' hlen, if_pos]
  right
  rw [List.head?_append, hl]
  rfl

/-- Any other line is where the reader goes on. -/
theorem skipComments_line (h : '\n' ∉ l) (h' : ∀ c ∈ l, c.toNat ≠ 0) (hlen : l.length < 255)
    (hc : c ∈ l.head?) (hcomment : c ≠ '#') :
    skipComments line (l ++ '\n' :: rest) = (l ++ ['\n'], rest) := by
  have hne : l ++ '\n' :: rest ≠ [] := List.append_ne_nil_of_right_ne_nil _ (List.cons_ne_nil _ _)
  have hl : (l ++ ['\n']).head? = some c := by
    rw [List.head?_append, Option.mem_def.1 hc]
    rfl
  have hend : c ≠ '\n' := by
    rintro rfl
    exact h (List.mem_of_mem_head? hc)
  rw [skipComments_eq, if_neg hne, nextLine_line h h' hlen, hl, if_neg]
  rw [Option.some.injEq, Option.some.injEq]
  exact not_or.2 ⟨hend, hcomment⟩

/-! ## The line of a task -/

theorem fits_C (t : TaskData) : -2 ^ 31 ≤ t.C ∧ t.C < 2 ^ 31 := t.fits _ (by simp)

theorem fits_T (t : TaskData) : -2 ^ 31 ≤ t.T ∧ t.T < 2 ^ 31 := t.fits _ (by simp)

theorem fits_D (t : TaskData) : -2 ^ 31 ≤ t.D ∧ t.D < 2 ^ 31 := t.fits _ (by simp)

/-- What `%d` writes has no end of a line, no end of a column and no zero. -/
theorem plain_of_mem_fmtInt {z : ℤ} (hc : c ∈ fmtInt z) :
    c ≠ '\n' ∧ c.toNat ≠ 0 ∧ isColumnEnd c = false ∧ c ≠ '#' := by
  rcases mem_fmtInt hc with rfl | hdigit
  · decide
  · refine ⟨ne_of_isDigit hdigit (by decide), ?_, ?_, ne_of_isDigit hdigit (by decide)⟩
    · have := isDigit_toNat hdigit
      omega
    · unfold isColumnEnd
      rw [decide_eq_false_iff_not]
      rintro (rfl | rfl | rfl) <;> exact absurd hdigit (by decide)

theorem taskLine_eq (i : ℕ) (t : TaskData) :
    taskLine i t = ("task".toList ++ fmtInt i) ++ ',' :: ' ' :: (fmtInt t.C ++ ',' :: ' ' ::
      (fmtInt t.T ++ ',' :: ' ' :: fmtInt t.D)) := by
  simp [taskLine, List.intercalate]

theorem plain_of_mem_taskLine (hc : c ∈ taskLine i t) : c ≠ '\n' ∧ c.toNat ≠ 0 := by
  have hnum {z : ℤ} (hc : c ∈ fmtInt z) : c ≠ '\n' ∧ c.toNat ≠ 0 :=
    ⟨(plain_of_mem_fmtInt hc).1, (plain_of_mem_fmtInt hc).2.1⟩
  have htask : ∀ c ∈ "task".toList, c ≠ '\n' ∧ c.toNat ≠ 0 := forall_mem_of_all (by decide)
  rw [taskLine_eq] at hc
  simp only [List.mem_append, List.mem_cons] at hc
  rcases hc with (hc | hc) | rfl | rfl | hc | rfl | rfl | hc | rfl | rfl | hc
  · exact htask c hc
  · exact hnum hc
  · decide
  · decide
  · exact hnum hc
  · decide
  · decide
  · exact hnum hc
  · decide
  · decide
  · exact hnum hc

theorem length_taskLine (hi : i < 2 ^ 31) : (taskLine i t).length < 255 := by
  have hname := length_fmtInt (z := i) (by omega) (by omega)
  have hC := length_fmtInt (fits_C t).1 (fits_C t).2
  have hT := length_fmtInt (fits_T t).1 (fits_T t).2
  have hD := length_fmtInt (fits_D t).1 (fits_D t).2
  have htask : "task".toList.length = 4 := by decide
  rw [taskLine_eq]
  simp only [List.length_append, List.length_cons, htask]
  omega

/-- The next line is that of the next task. -/
theorem nextLine_task (hi : i < 2 ^ 31) :
    nextLine line (taskLine i t ++ '\n' :: rest) = (taskLine i t ++ ['\n'], rest) :=
  nextLine_line (fun h => (plain_of_mem_taskLine h).1 rfl) (fun _ hc => (plain_of_mem_taskLine hc).2)
    (length_taskLine hi)

/-- **The columns of a line** -/
theorem tokens_taskLine (i : ℕ) (t : TaskData) : tokens isColumnEnd nrCols (taskLine i t ++ ['\n']) =
    some ["task".toList ++ fmtInt i, fmtInt t.C, fmtInt t.T, fmtInt t.D ++ ['\n']] := by
  have hnum {z : ℤ} : ∀ c ∈ fmtInt z, isColumnEnd c = false := fun c hc => (plain_of_mem_fmtInt hc).2.2.1
  have htask : ∀ c ∈ "task".toList, isColumnEnd c = false := forall_mem_of_all (by decide)
  have hname : ∀ c ∈ "task".toList ++ fmtInt i, isColumnEnd c = false := by
    intro c hc
    rcases List.mem_append.1 hc with hc | hc
    · exact htask c hc
    · exact hnum c hc
  have hlast : ∀ c ∈ fmtInt t.D ++ ['\n'], isColumnEnd c = false := by
    intro c hc
    rcases List.mem_append.1 hc with hc | hc
    · exact hnum c hc
    · rw [List.mem_singleton.1 hc]
      decide
  have hcomma : isColumnEnd ',' = true := by decide
  have hspace : isColumnEnd ' ' = true := by decide
  have hline : taskLine i t ++ ['\n'] = ("task".toList ++ fmtInt i) ++ ',' :: ' ' ::
      (fmtInt t.C ++ ',' :: ' ' :: (fmtInt t.T ++ ',' :: ' ' :: (fmtInt t.D ++ ['\n']))) := by
    rw [taskLine_eq]
    simp only [List.append_assoc, List.cons_append]
  rw [hline, show nrCols = 4 from rfl, tokens, strtok_field (by simp) hname hcomma, Option.bind_some,
    tokens, strtok_cons hspace, strtok_field fmtInt_ne_nil hnum hcomma, Option.bind_some,
    tokens, strtok_cons hspace, strtok_field fmtInt_ne_nil hnum hcomma, Option.bind_some,
    tokens, strtok_cons hspace, strtok_last (by simp) hlast, Option.bind_some, tokens]
  simp only [Option.map_some]

theorem readTask_taskLine (i k : ℕ) (t : TaskData) :
    readTask i (taskLine k t ++ ['\n']) = .ok (t.start i) := by
  have hnil {z : ℤ} (h : -2 ^ 31 ≤ z ∧ z < 2 ^ 31) : atoi (fmtInt z) = z := by
    have hz : atoi (fmtInt z ++ []) = z := atoi_fmtInt h.1 h.2 (fun c hc => by cases hc)
    rwa [List.append_nil] at hz
  have hend : atoi (fmtInt t.D ++ ['\n']) = t.D := by
    apply atoi_fmtInt (fits_D t).1 (fits_D t).2
    intro c hc
    obtain rfl : '\n' = c := Option.some.inj hc
    decide
  unfold readTask
  rw [tokens_taskLine]
  dsimp only
  rw [hnil (fits_C t), hnil (fits_T t), hend]
  rfl

/-! ## The file -/

theorem readTasks_succ {b : BenchTask} {bs : List BenchTask} (hb : readTask i line = .ok b)
    (hbs : readTasks n (i + 1) (nextLine line fp).1 (nextLine line fp).2 = .ok bs) :
    readTasks (n + 1) i line fp = .ok (b :: bs) := by
  rw [readTasks, hb]
  change (readTasks n (i + 1) _ _ >>= fun ts => pure (b :: ts)) = _
  rw [hbs]
  rfl

/-- The loop over the tasks, with the line of a task in the buffer: the last line is read again when there
are no more. -/
theorem readTasks_taskLines (d : TaskData) : ∀ (n i k : ℕ) (t : TaskData) (ts : List TaskData),
    k + ts.length < 2 ^ 31 →
    readTasks n i (taskLine k t ++ ['\n']) (taskLines (k + 1) ts) =
      .ok ((List.range n).map fun j => ((t :: ts).getD (min j ts.length) d).start (i + j)) := by
  intro n
  induction n with
  | zero => exact fun _ _ _ _ _ => rfl
  | succ n ih =>
    intro i k t ts hk
    rw [List.range_succ_eq_map, List.map_cons, List.map_map]
    rw [show ((t :: ts).getD (min 0 ts.length) d).start (i + 0) = t.start i by simp]
    apply readTasks_succ (readTask_taskLine i k t)
    rcases ts with _ | ⟨u, us⟩
    · have hrest := ih (i + 1) k t [] hk
      rw [taskLines] at hrest ⊢
      rw [nextLine_nil, hrest]
      congr 1
      apply List.map_congr_left
      intro j _
      simp [Nat.add_assoc, Nat.add_comm 1]
    · rw [List.length_cons] at hk
      rw [taskLines, nextLine_task (by omega), ih (i + 1) (k + 1) u us (by omega)]
      congr 1
      apply List.map_congr_left
      intro j _
      simp [Nat.add_assoc, Nat.add_comm 1, Nat.add_min_add_right]

/-- The header is read up to the lines of the tasks. -/
theorem readTaskset_header (hn : n < 2 ^ 31) (line rest : List Char) :
    readTaskset line (tasksetHeader n ++ rest) =
      readTasks n 0 (skipComments (fmtInt n ++ ['\n']) ("# tasks (name, C, T, D)\n".toList ++ rest)).1
        (skipComments (fmtInt n ++ ['\n']) ("# tasks (name, C, T, D)\n".toList ++ rest)).2 := by
  have hfile : tasksetHeader n ++ rest = "# the number of tasks".toList ++ '\n' ::
      (fmtInt n ++ '\n' :: ("# tasks (name, C, T, D)\n".toList ++ rest)) := by
    unfold tasksetHeader
    simp
  have hnum : ∀ c ∈ fmtInt n, c ≠ '\n' ∧ c.toNat ≠ 0 :=
    fun c hc => ⟨(plain_of_mem_fmtInt hc).1, (plain_of_mem_fmtInt hc).2.1⟩
  obtain ⟨c, cs, hcs⟩ := List.exists_cons_of_ne_nil (fmtInt_ne_nil (z := n))
  have hhead : c ∈ (fmtInt n).head? := by
    rw [hcs]
    rfl
  have hlen := length_fmtInt (z := n) (by omega) (by omega)
  have hfirst : skipComments line (tasksetHeader n ++ rest) =
      (fmtInt n ++ ['\n'], "# tasks (name, C, T, D)\n".toList ++ rest) := by
    rw [hfile, skipComments_comment (by decide) (forall_mem_of_all (by decide)) (by decide) rfl]
    exact skipComments_line (fun h => (hnum _ h).1 rfl) (fun c hc => (hnum c hc).2) (by omega) hhead
      (plain_of_mem_fmtInt (List.mem_of_mem_head? hhead)).2.2.2
  have hcount : (atoi (fmtInt n ++ ['\n'])).toNat = n := by
    rw [atoi_fmtInt (by omega) (by omega)]
    · rfl
    · intro c hc
      obtain rfl : '\n' = c := Option.some.inj hc
      decide
  unfold readTaskset
  dsimp only
  rw [hfirst, hcount]

/-- **A header and lines of tasks.** As many tasks are read as the header says, the last line again and
again when there are fewer lines. -/
theorem readTaskset_written (line : List Char) (hn : n < 2 ^ 31) (t : TaskData)
    (hts : ts.length < 2 ^ 31) :
    readTaskset line (tasksetHeader n ++ taskLines 0 (t :: ts)) =
      .ok ((List.range n).map fun i => ((t :: ts).getD (min i ts.length) t).start i) := by
  have hcomment : "# tasks (name, C, T, D)\n".toList ++ taskLines 0 (t :: ts) =
      "# tasks (name, C, T, D)".toList ++ '\n' :: (taskLine 0 t ++ '\n' :: taskLines 1 ts) := by
    simp [taskLines]
  have hhead : 't' ∈ (taskLine 0 t).head? := by
    rw [taskLine_eq]
    rfl
  rw [readTaskset_header hn, hcomment, skipComments_comment (by decide)
      (forall_mem_of_all (by decide)) (by decide) rfl,
    skipComments_line (fun h => (plain_of_mem_taskLine h).1 rfl)
      (fun _ hc => (plain_of_mem_taskLine hc).2) (length_taskLine (by omega)) hhead (by decide),
    readTasks_taskLines t n 0 0 t ts (by omega)]
  simp

/-- **The round trip.** What `generate_taskset` has written is read. -/
theorem readTaskset_writeTaskset (line : List Char) (hts : ts.length < 2 ^ 31) :
    readTaskset line (writeTaskset ts) = .ok (ts.mapIdx fun i t => t.start i) := by
  unfold writeTaskset
  rcases ts with _ | ⟨t, ts⟩
  · rw [readTaskset_header (by decide)]
    rfl
  · rw [List.length_cons] at hts
    rw [readTaskset_written line (by rw [List.length_cons]; omega) t (by omega), List.length_cons]
    congr 1
    apply List.ext_getElem
    · simp
    · intro i hi hi'
      rw [List.length_map, List.length_range] at hi
      have hmin : min i ts.length = i := by omega
      rw [List.getElem_map, List.getElem_range, List.getElem_mapIdx, hmin, List.getD_eq_getElem _ _ hi]

/-- Three tasks, two of them with one deadline: they are read back. -/
theorem readTaskset_writeTaskset_three :
    readTaskset [] (writeTaskset [⟨2, 30, 30, by decide⟩, ⟨3, 20, 10, by decide⟩, ⟨4, 40, 30, by decide⟩]) =
      .ok [⟨0, 0, 2, 30, 30, 1⟩, ⟨0, 1, 3, 20, 10, 1⟩, ⟨0, 2, 4, 40, 30, 1⟩] :=
  readTaskset_writeTaskset [] (by decide)

/-! ## Priorities -/

/-- What the sort moves of a task -/
def BenchTask.body (t : BenchTask) : ℤ × ℤ × ℤ × ℤ := (t.tid, t.C, t.T, t.D)

/-- A body is sorted by the deadline. -/
def bodyDeadline (b : ℤ × ℤ × ℤ × ℤ) : ℤ := b.2.2.2

theorem swapTasks_body (tasks : List BenchTask) (j : ℕ) :
    (swapTasks tasks j).map BenchTask.body = exchangeAt bodyDeadline (tasks.map BenchTask.body) j := by
  unfold swapTasks exchangeAt
  rw [List.getElem?_map, List.getElem?_map]
  rcases tasks[j - 1]? with _ | a
  · rfl
  · rcases tasks[j]? with _ | b
    · rfl
    · dsimp only [Option.map_some]
      by_cases hlt : b.D < a.D
      · rw [if_pos hlt, if_pos (c := bodyDeadline b.body < bodyDeadline a.body) hlt, List.map_set,
          List.map_set]
        rfl
      · rw [if_neg hlt, if_neg (c := bodyDeadline b.body < bodyDeadline a.body) hlt]

/-- The process stays where it is. -/
theorem swapTasks_pid (tasks : List BenchTask) (j : ℕ) :
    (swapTasks tasks j).map BenchTask.pid = tasks.map BenchTask.pid := by
  have hset {l : List ℤ} {i : ℕ} {x : ℤ} (h : l[i]? = some x) : l.set i x = l := by
    obtain ⟨hi, rfl⟩ := List.getElem?_eq_some_iff.1 h
    exact List.set_getElem_self hi
  unfold swapTasks
  split
  · rename_i a b ha hb
    split
    · have hb' : (tasks.map BenchTask.pid)[j]? = some b.pid := by
        rw [List.getElem?_map, hb]
        rfl
      have ha' : (tasks.map BenchTask.pid)[j - 1]? = some a.pid := by
        rw [List.getElem?_map, ha]
        rfl
      rw [List.map_set, List.map_set, hset hb', hset ha']
    · rfl
  · rfl

theorem swapDownTo_body (tasks : List BenchTask) (i : ℕ) :
    (swapDownTo tasks i).map BenchTask.body = exchangeDownTo bodyDeadline (tasks.map BenchTask.body) i := by
  unfold swapDownTo exchangeDownTo
  rw [List.length_map]
  exact (List.foldl_hom (List.map BenchTask.body) fun tasks j => (swapTasks_body tasks j).symm).symm

/-- The loops on the array sort what they move. -/
theorem foldl_swapDownTo_body (tasks : List BenchTask) :
    ((List.range (tasks.length - 1)).foldl swapDownTo tasks).map BenchTask.body =
      bubbleArray bodyDeadline (tasks.map BenchTask.body) := by
  unfold bubbleArray
  rw [List.length_map]
  exact (List.foldl_hom (List.map BenchTask.body) fun tasks i => (swapDownTo_body tasks i).symm).symm

theorem swapDownTo_pid (tasks : List BenchTask) (i : ℕ) :
    (swapDownTo tasks i).map BenchTask.pid = tasks.map BenchTask.pid := by
  unfold swapDownTo
  generalize (List.range' (i + 1) (tasks.length - 1 - i)).reverse = js
  induction js generalizing tasks with
  | nil => rfl
  | cons j js ih => rw [List.foldl_cons, ih, swapTasks_pid]

theorem foldl_swapDownTo_pid (js : List ℕ) (tasks : List BenchTask) :
    (js.foldl swapDownTo tasks).map BenchTask.pid = tasks.map BenchTask.pid := by
  induction js generalizing tasks with
  | nil => rfl
  | cons j js ih => rw [List.foldl_cons, ih, swapDownTo_pid]

theorem benchPrio_eq (hi : i < 2 ^ 31) : benchPrio i = 96 - i := by
  unfold benchPrio
  by_cases hle : i ≤ reschAppPrioMax
  · unfold reschAppPrioMax at *
    rw [ulong_of_lt (by omega) (by omega), cint_of_lt (by omega)]
    omega
  · -- the priority is negative: the count wraps, and the `int` takes it back
    unfold reschAppPrioMax at *
    rw [ulong_of_neg (by omega) (by omega)]
    unfold cint
    rw [Int.toNat_of_nonneg (by omega), Int.bmod_def]
    omega

theorem map_mapIdx_prio {β : Type*} (f : BenchTask → β) (g : ℕ → ℤ)
    (hf : ∀ t p, f { t with prio := p } = f t) (tasks : List BenchTask) :
    (tasks.mapIdx fun i t => { t with prio := g i }).map f = tasks.map f := by
  apply List.ext_getElem?
  intro i
  rw [List.getElem?_map, List.getElem?_mapIdx, Option.map_map, List.getElem?_map]
  congr 1
  funext t
  exact hf t (g i)

/-- **Deadline-monotonic priorities.** The array is sorted by the deadlines, and tasks of one deadline keep
their order; the processes stay where they are, and the priorities count down from 96. -/
theorem deadlineMonotonicPriority_sorted (tasks : List BenchTask) (h : tasks.length < 2 ^ 31) :
    ((deadlineMonotonicPriority tasks).map BenchTask.body).Perm (tasks.map BenchTask.body) ∧
      (deadlineMonotonicPriority tasks).Pairwise (fun a b => a.D ≤ b.D) ∧
      (∀ d, ((deadlineMonotonicPriority tasks).map BenchTask.body).filter (fun b => bodyDeadline b = d) =
        (tasks.map BenchTask.body).filter fun b => bodyDeadline b = d) ∧
      (deadlineMonotonicPriority tasks).map BenchTask.pid = tasks.map BenchTask.pid ∧
      (deadlineMonotonicPriority tasks).map BenchTask.prio =
        (List.range tasks.length).map fun i : ℕ => 96 - (i : ℤ) := by
  have hbody : (deadlineMonotonicPriority tasks).map BenchTask.body =
      bubbleArray bodyDeadline (tasks.map BenchTask.body) := by
    unfold deadlineMonotonicPriority
    rw [map_mapIdx_prio BenchTask.body benchPrio fun _ _ => rfl, foldl_swapDownTo_body]
  have hpid : (deadlineMonotonicPriority tasks).map BenchTask.pid = tasks.map BenchTask.pid := by
    unfold deadlineMonotonicPriority
    rw [map_mapIdx_prio BenchTask.pid benchPrio fun _ _ => rfl, foldl_swapDownTo_pid]
  have hlen : (deadlineMonotonicPriority tasks).length = tasks.length := by
    have := congrArg List.length hpid
    rwa [List.length_map, List.length_map] at this
  refine ⟨?_, ?_, ?_, hpid, ?_⟩
  · rw [hbody]
    exact bubbleArray_perm _ _
  · have hsorted := bubbleArray_sorted bodyDeadline (tasks.map BenchTask.body)
    rw [← hbody, List.pairwise_map] at hsorted
    exact hsorted
  · intro d
    rw [hbody]
    exact bubbleArray_filter _ _ _
  · apply List.ext_getElem
    · rw [List.length_map, List.length_map, List.length_range, hlen]
    · intro i hi hi'
      rw [List.length_map, List.length_range] at hi'
      rw [List.getElem_map, List.getElem_map, List.getElem_range, ← benchPrio_eq (by omega)]
      simp only [deadlineMonotonicPriority, List.getElem_mapIdx]

/-- The same three tasks in the order of their deadlines -/
theorem deadlineMonotonicPriority_sorted_three :
    (deadlineMonotonicPriority [⟨0, 0, 2, 30, 30, 1⟩, ⟨0, 1, 3, 20, 10, 1⟩, ⟨0, 2, 4, 40, 30, 1⟩]).map
      BenchTask.prio = [96, 95, 94] :=
  (deadlineMonotonicPriority_sorted _ (by decide)).2.2.2.2

end Resch
