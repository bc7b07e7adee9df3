import VersionedQueue.Proofs.Storage.Answers
import VersionedQueue.Proofs.Table.Versions

/-!
# What writing does to a table

A write changes the history of its own cell at its own version.  `Table.Touched` bounds what any
sequence of calls did to a table: the rows outside a set are as they were, only cells at one version
were written, no version was lost, and no counter went back.
-/

set_option autoImplicit false
set_option relaxedAutoImplicit false

namespace VersionedQueue

namespace Table

theorem history_record (t : Table) (row column : Bytes) (v : Version) (x : Option Bytes)
    (r c : Bytes) :
    (t.record row column v x).history r c =
      if r = row ∧ c = column then (t.history row column).record v x else t.history r c := by
  simp only [history, record, Std.TreeMap.getD_insert, Std.LawfulEqCmp.compare_eq_iff_eq,
    Place.mk.injEq, @eq_comm _ row, @eq_comm _ column]

@[simp] theorem counter_record (t : Table) (row column : Bytes) (v : Version) (x : Option Bytes)
    (r c : Bytes) : (t.record row column v x).counter r c = t.counter r c := rfl

/-- One table comes from another by calls that touched only some rows, wrote only at one version,
lost no version and took no counter back. -/
structure Touched (rows : Bytes → Prop) (version : Version) (t t' : Table) : Prop where
  history : ∀ row, ¬ rows row → ∀ column, t'.history row column = t.history row column
  counter : ∀ row, ¬ rows row → ∀ column, t'.counter row column = t.counter row column
  at? : ∀ row column v, v ≠ version →
    (t'.history row column).at? v = (t.history row column).at? v
  has : ∀ row column v, (t.history row column).Has v → (t'.history row column).Has v
  counter_le : ∀ row column, (t.counter row column).toInt ≤ (t'.counter row column).toInt
  refuses : t'.refusesIncrements = t.refusesIncrements

namespace Touched

variable {rows : Bytes → Prop} {version : Version} {t t' t'' : Table}

theorem refl (rows : Bytes → Prop) (version : Version) (t : Table) : Touched rows version t t :=
  ⟨fun _ _ _ => rfl, fun _ _ _ => rfl, fun _ _ _ _ => rfl, fun _ _ _ h => h,
    fun _ _ => Int.le_refl _, rfl⟩

theorem trans (first : Touched rows version t t') (second : Touched rows version t' t'') :
    Touched rows version t t'' where
  history row out column := (second.history row out column).trans (first.history row out column)
  counter row out column := (second.counter row out column).trans (first.counter row out column)
  at? row column v other := (second.at? row column v other).trans (first.at? row column v other)
  has row column v h := second.has row column v (first.has row column v h)
  counter_le row column := Int.le_trans (first.counter_le row column) (second.counter_le row column)
  refuses := second.refuses.trans first.refuses

theorem of_record {row : Bytes} (here : rows row) (t : Table) (column : Bytes) (x : Option Bytes) :
    Touched rows version t (t.record row column version x) where
  history r out c := by
    have other : r ≠ row := fun same => out (same ▸ here)
    simp [history_record, other]
  counter _ _ _ := rfl
  at? r c v other := by
    rw [history_record]
    split
    · rename_i same
      rw [History.at?_record, if_neg (Ne.symm other), same.1, same.2]
    · rfl
  has r c v h := by
    rw [history_record]
    split
    · rename_i same
      rw [same.1, same.2] at h
      exact (History.has_record _ _ _ _).2 (.inr h)
    · exact h
  counter_le _ _ := Int.le_refl _
  refuses := rfl

end Touched

/-- The cells of one row, written one after the other at one version. -/
def recordAll (t : Table) (row : Bytes) (cells : List (Bytes × Bytes)) (v : Version) : Table :=
  cells.foldl (fun t cell => t.record row cell.1 v (some cell.2)) t

theorem touched_recordAll {rows : Bytes → Prop} {row : Bytes} (here : rows row) (v : Version) :
    ∀ (cells : List (Bytes × Bytes)) (t : Table), Touched rows v t (t.recordAll row cells v)
  | [], t => .refl rows v t
  | cell :: rest, t =>
      (Touched.of_record here t cell.1 (some cell.2)).trans
        (touched_recordAll here v rest (t.record row cell.1 v (some cell.2)))

theorem Touched.of_recordAll {row : Bytes} {cells : List (Bytes × Bytes)} {v : Version} {t t' : Table}
    (table : t' = t.recordAll row cells v) : t.Touched (· = row) v t' := by
  rw [table]
  exact @touched_recordAll (· = row) row rfl v cells t

theorem counter_recordAll {row : Bytes} {v : Version} {r c : Bytes} :
    ∀ (cells : List (Bytes × Bytes)) (t : Table),
      (t.recordAll row cells v).counter r c = t.counter r c
  | [], _ => rfl
  | cell :: rest, t => by
      have later := @counter_recordAll row v r c rest (t.record row cell.1 v (some cell.2))
      exact later

/-- Columns that are not written keep their histories. -/
theorem history_recordAll_of_notMem {row : Bytes} {v : Version} {c : Bytes} :
    ∀ {cells : List (Bytes × Bytes)} {t : Table}, c ∉ cells.map (·.1) →
      (t.recordAll row cells v).history row c = t.history row c
  | [], _, _ => rfl
  | cell :: rest, t, out => by
      simp only [List.map_cons, List.mem_cons, not_or] at out
      have later := @history_recordAll_of_notMem row v c rest
        (t.record row cell.1 v (some cell.2)) out.2
      refine later.trans ?_
      simp [history_record, out.1]

theorem history_recordAll_congr {row : Bytes} {v : Version} {r c : Bytes} :
    ∀ (cells : List (Bytes × Bytes)) {t t' : Table}, t'.history r c = t.history r c →
      (t'.recordAll row cells v).history r c = (t.recordAll row cells v).history r c
  | [], _, _, same => same
  | cell :: rest, t, t', same => by
      refine @history_recordAll_congr row v r c rest (t.record row cell.1 v (some cell.2))
        (t'.record row cell.1 v (some cell.2)) ?_
      simp only [history_record]
      split
      · rename_i here
        rw [← here.1, ← here.2, same]
      · exact same

theorem history_recordAll_of_mem {row : Bytes} {v : Version} {c x : Bytes} :
    ∀ {cells : List (Bytes × Bytes)} {t : Table}, (cells.map (·.1)).Nodup → (c, x) ∈ cells →
      (t.recordAll row cells v).history row c = (t.history row c).record v (some x)
  | [], _, _, inside => by cases inside
  | cell :: rest, t, distinct, inside => by
      simp only [List.map_cons, List.nodup_cons] at distinct
      rcases List.mem_cons.1 inside with same | later
      · subst same
        refine (history_recordAll_of_notMem (t := t.record row c v (some x)) distinct.1).trans ?_
        simp [history_record]
      · have other : c ≠ cell.1 := fun same =>
          distinct.1 (same ▸ List.mem_map.2 ⟨(c, x), later, rfl⟩)
        refine (history_recordAll_of_mem (t := t.record row cell.1 v (some cell.2)) distinct.2
          later).trans ?_
        simp [history_record, other]

theorem has_recordAll {row : Bytes} {v : Version} {c x : Bytes} :
    ∀ {cells : List (Bytes × Bytes)} {t : Table}, (c, x) ∈ cells →
      ((t.recordAll row cells v).history row c).Has v
  | [], _, inside => by cases inside
  | cell :: rest, t, inside => by
      rcases List.mem_cons.1 inside with rfl | later
      · have kept := @touched_recordAll (· = row) row rfl v rest (t.record row c v (some x))
        refine kept.has row c v ?_
        rw [history_record, if_pos ⟨rfl, rfl⟩, History.has_record]
        exact .inl rfl
      · exact @has_recordAll row v c x rest (t.record row cell.1 v (some cell.2)) later

end Table

namespace TableM

variable {α : Type} {t t' : Table} {row column : Bytes} {delta next : Int64}

/-- An operation that fails leaves the table as it found it. -/
def FailsClean (act : TableM α) : Prop := ∀ {t t' : Table} {e : TableError}, act t = .error e t' → t' = t

theorem failsClean_view (s : Snapshot) : FailsClean (view s) := nofun

theorem failsClean_put (row : Bytes) (cells : List (Bytes × Bytes)) (v : Version) :
    FailsClean (put row cells v) := by
  intro t t' e failed
  unfold put at failed
  split at failed
  · cases failed
    rfl
  · split at failed <;> cases failed
    rfl

theorem failsClean_delete (row column : Bytes) (v : Version) : FailsClean (delete row column v) := by
  intro t t' e failed
  unfold delete at failed
  split at failed
  · cases failed
    rfl
  · split at failed <;> cases failed
    rfl

theorem failsClean_increment (row column : Bytes) (delta : Int64) :
    FailsClean (increment row column delta) := by
  intro t t' e failed
  unfold increment at failed
  split at failed
  · cases failed
    rfl
  · split at failed
    · cases failed
      rfl
    · split at failed
      · cases failed
        rfl
      · split at failed <;> cases failed
        rfl

theorem table_of_put {cells : List (Bytes × Bytes)} {v : Version} (h : put row cells v t = .ok () t') :
    t' = t.recordAll row cells v := by
  unfold put at h
  split at h
  · cases h
  · split at h <;> cases h
    rfl

theorem table_of_delete {v : Version} (h : delete row column v t = .ok () t') :
    t' = t.record row column v none := by
  unfold delete at h
  split at h
  · cases h
  · split at h <;> cases h
    rfl

theorem kept_of_increment (h : increment row column delta t = .ok next t') :
    (∀ r c, t'.history r c = t.history r c) ∧ t'.refusesIncrements = t.refusesIncrements := by
  obtain ⟨_, _, rfl⟩ := of_increment h
  exact ⟨fun _ _ => rfl, rfl⟩

theorem touched_increment {rows : Bytes → Prop} {version : Version} (here : rows row)
    (forward : 0 ≤ delta.toInt) (h : increment row column delta t = .ok next t') :
    t.Touched rows version t' := by
  obtain ⟨sum, counters⟩ := counter_of_increment h
  obtain ⟨cells, refuses⟩ := kept_of_increment h
  have added := Table.toInt_of_checkedAdd sum
  refine ⟨fun r _ c => cells r c, fun r out c => ?_, fun r c _ _ => by rw [cells],
    fun r c _ has => by rwa [cells], fun r c => ?_, refuses⟩
  · have other : r ≠ row := fun same => out (same ▸ here)
    rw [counters]
    simp [other]
  · rw [counters]
    split
    · rename_i same
      rw [same.1, same.2]
      omega
    · exact Int.le_refl _

theorem touched_increment_zero {rows : Bytes → Prop} {version : Version}
    (h : increment row column 0 t = .ok next t') : t.Touched rows version t' := by
  have all : t.Touched (fun _ => True) version t' := touched_increment trivial (Int.le_refl _) h
  obtain ⟨cells, refuses⟩ := kept_of_increment h
  exact ⟨fun r _ c => cells r c, fun r _ c => counter_of_increment_zero h r c, all.at?, all.has,
    all.counter_le, refuses⟩

section Coupled

variable {R : Table → Table → Prop}

theorem coupled_view {s : Snapshot} (same : ∀ {t t'}, R t t' → t'.read s = t.read s) :
    Coupled R (view s) := by
  intro t t' related
  rw [view, view, same related]
  exact .ok related

theorem coupled_put {cells : List (Bytes × Bytes)} {v : Version}
    (written : ∀ {t t'}, R t t' → R (t.recordAll row cells v) (t'.recordAll row cells v)) :
    Coupled R (put row cells v) := by
  intro t t' related
  unfold put
  split
  · exact .error related
  · split
    · exact .error related
    · exact .ok (written related)

theorem coupled_delete {v : Version}
    (written : ∀ {t t'}, R t t' → R (t.record row column v none) (t'.record row column v none)) :
    Coupled R (delete row column v) := by
  intro t t' related
  unfold delete
  split
  · exact .error related
  · split
    · exact .error related
    · exact .ok (written related)

theorem coupled_increment (refuses : ∀ {t t'}, R t t' → t'.refusesIncrements = t.refusesIncrements)
    (counter : ∀ {t t'}, R t t' → t'.counter row column = t.counter row column)
    (moved : ∀ {t t'}, R t t' → ∀ next, R (t.setCounter row column next) (t'.setCounter row column next)) :
    Coupled R (increment row column delta) := by
  intro t t' related
  unfold increment
  rw [refuses related, counter related]
  split
  · exact .error related
  · split
    · exact .error related
    · split
      · exact .error related
      · cases Table.checkedAdd (t.counter row column) delta with
        | none => exact .error related
        | some next => exact .ok (moved related next)

end Coupled

end TableM

end VersionedQueue
