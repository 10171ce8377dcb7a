import Mathlib.Data.List.Sort
import Mathlib.Data.String.Basic
import Mathlib.Algebra.GroupWithZero.Nat
import EmergentFlow.Lib.Dict
import EmergentFlow.Lib.LossyStore

/-!
# Server — DiskStore

The two on-disk stores of the server, `ExecutionCache` (`server/cache.py`)
and `ArtifactStore` (`server/artifacts.py`). Both keep one pickle file and
one sidecar file for each key and delete the least recently used pickles
when the files outgrow a cap; they differ in the names of the files and in
the cache's collection of orphaned sidecars.

File times come from a clock that ticks at every access. What pickling
does to a value is a parameter: it returns the size of the file, or raises
after some bytes have been written, which leaves a file nobody can read.
-/

namespace EmergentFlow

variable {α : Type}

/-- A `.pkl` file: its content, if it can be unpickled. -/
structure PickleFile (α : Type) where
  content : Option α
  size : Nat
  mtime : Nat

/-- The directory of a store: pickles, the sizes of the sidecars, the clock. -/
structure DiskStore (α : Type) where
  pickles : Dict String (PickleFile α) := Dict.empty
  sidecars : Dict String Nat := Dict.empty
  clock : Nat := 0

/-- What distinguishes one store from another. `max_bytes` is the cap in
whole bytes. `pickle` is the size of a
dumped value, or how many bytes were written before dumping it raised;
`sidecar_size` is the size of the sidecar with a node id and a label. -/
structure DiskConfig (α : Type) where
  max_bytes : Nat
  pickle : α → Except Nat Nat
  sidecar_size : String → String → Nat
  collects_orphans : Bool

namespace DiskStore

/-- The entry under `key` can be read, and reads as this. -/
def readable (s : DiskStore α) (key : String) : Option α :=
  (s.pickles.get? key).bind (·.content)

/-- `get`: a file that is missing or cannot be unpickled is a miss; a hit
refreshes the time of the file. -/
def get (s : DiskStore α) (key : String) : Option α × DiskStore α :=
  match s.readable key with
  | none => (none, s)
  | some a => (some a, { s with
      pickles := s.pickles.modify key ({ · with mtime := s.clock })
      clock := s.clock + 1 })

/-- The size of all files of the store. -/
def total_bytes (s : DiskStore α) : Nat :=
  (s.pickles.values.map (·.size)).sum + s.sidecars.values.sum

/-- Delete the pickle and the sidecar of `key`. -/
def unlink (s : DiskStore α) (key : String) : DiskStore α :=
  { s with pickles := s.pickles.erase key, sidecars := s.sidecars.erase key }

/-- The loop of `_evict_to_cap` over the keys by age: the oldest goes while
more than one is left and the files exceed the cap. -/
def evict (max_bytes : Nat) : List String → DiskStore α → DiskStore α
  | key :: next :: rest, s =>
      if max_bytes < s.total_bytes then evict max_bytes (next :: rest) (s.unlink key) else s
  | _, s => s

/-- The keys of the pickles, least recently used first. -/
def by_age (s : DiskStore α) : List String :=
  (s.pickles.entries.insertionSort (·.2.mtime ≤ ·.2.mtime)).map Prod.fst

/-- `_evict_to_cap`. -/
def evict_to_cap (cfg : DiskConfig α) (s : DiskStore α) : DiskStore α :=
  let s := s.evict cfg.max_bytes s.by_age
  if cfg.collects_orphans then
    { s with sidecars := s.sidecars.filter fun key _ => s.pickles.contains key }
  else s

/-- `put`. Opening the file truncates it, so a value that cannot be pickled
leaves an unreadable file, and the rest of the method is not reached. -/
def put (cfg : DiskConfig α) (s : DiskStore α) (key : String) (a : α) (note : String × String) :
    DiskStore α :=
  match cfg.pickle a with
  | .error size =>
      { s with pickles := s.pickles.set key ⟨none, size, s.clock⟩, clock := s.clock + 1 }
  | .ok size =>
      evict_to_cap cfg
        { pickles := s.pickles.set key ⟨some a, size, s.clock⟩
          sidecars := s.sidecars.set key (cfg.sidecar_size note.1 note.2)
          clock := s.clock + 1 }

/-! ## What can be read -/

theorem readable_get (s : DiskStore α) (key : String) : (s.get key).2.readable = s.readable := by
  funext k
  unfold get
  cases h : s.readable key with
  | none => rfl
  | some a =>
      simp only [readable, Dict.get?_modify]
      split
      · rename_i heq
        subst heq
        cases s.pickles.get? key <;> rfl
      · rfl

theorem readable_unlink {s : DiskStore α} {key k : String} {a : α}
    (h : (s.unlink key).readable k = some a) : s.readable k = some a := by
  simp only [readable, unlink, Dict.get?_erase] at h
  split at h
  · cases h
  · exact h

theorem readable_evict {max_bytes : Nat} {keys : List String} {s : DiskStore α} {k : String}
    {a : α} (h : (s.evict max_bytes keys).readable k = some a) : s.readable k = some a := by
  induction keys generalizing s with
  | nil => exact h
  | cons key rest ih =>
      cases rest with
      | nil => exact h
      | cons next rest =>
          rw [evict] at h
          split at h
          · exact readable_unlink (ih h)
          · exact h

/-- Eviction only removes entries. -/
theorem readable_evict_to_cap {cfg : DiskConfig α} {s : DiskStore α} {k : String} {a : α}
    (h : (s.evict_to_cap cfg).readable k = some a) : s.readable k = some a := by
  refine @readable_evict _ cfg.max_bytes s.by_age s k a ?_
  simp only [evict_to_cap] at h
  split at h <;> exact h

theorem readable_put {cfg : DiskConfig α} {s : DiskStore α} {key : String} {a : α}
    {note : String × String} {k : String} {b : α}
    (h : (s.put cfg key a note).readable k = some b) :
    (k = key ∧ b = a) ∨ (k ≠ key ∧ s.readable k = some b) := by
  unfold put at h
  by_cases hk : k = key
  · subst hk
    left
    split at h
    · simp [readable] at h
    · have := readable_evict_to_cap h
      simp only [readable, Dict.get?_set_self, Option.bind_some, Option.some.injEq] at this
      exact ⟨rfl, this.symm⟩
  · right
    refine ⟨hk, ?_⟩
    split at h
    · simpa [readable, Dict.get?_set_ne _ _ (Ne.symm hk)] using h
    · have := readable_evict_to_cap h
      simpa [readable, Dict.get?_set_ne _ _ (Ne.symm hk)] using this

/-- A disk store reads back what was written, while it keeps it. -/
def lossy (cfg : DiskConfig α) : LossyStore String α (String × String) where
  State := DiskStore α
  get := get
  put := put cfg
  view := readable
  get_eq s k := by
    unfold get
    cases h : s.readable k <;> rfl
  view_get s k := readable_get s k
  view_put_same s k a n b h := by
    rcases readable_put h with ⟨-, hb⟩ | ⟨hne, -⟩
    · exact hb
    · exact absurd rfl hne
  view_put_ne s k a n k' b hne h := by
    rcases readable_put h with ⟨heq, -⟩ | ⟨-, hb⟩
    · exact absurd heq hne
    · exact hb

end DiskStore

/-! ## The two stores -/

/-- `ExecutionCache`, keyed by the content hash. -/
def ExecutionCache (max_bytes : Nat) (pickle : α → Except Nat Nat)
    (sidecar_size : String → String → Nat) : LossyStore String α (String × String) :=
  DiskStore.lossy { max_bytes, pickle, sidecar_size, collects_orphans := true }

/-- `ArtifactStore`, keyed by the file name of a node id (`safe_key`). -/
def ArtifactStore (max_bytes : Nat) (pickle : α → Except Nat Nat)
    (sidecar_size : String → String → Nat) : LossyStore String α (String × String) :=
  DiskStore.lossy { max_bytes, pickle, sidecar_size, collects_orphans := false }

/-- `_SAFE_KEY_RE.match`: one to 128 characters of `[A-Za-z0-9_-]`; the `$`
of the pattern also matches before a final newline. -/
def is_safe_key (node_id : String) : Bool :=
  let chars := if node_id.toList.getLast? = some '\n' then node_id.toList.dropLast
    else node_id.toList
  0 < chars.length && chars.length ≤ 128 &&
    chars.all fun c => c.isAlphanum || c = '_' || c = '-'

/-- `_safe_key`. -/
def safe_key (sha256 : String → String) (node_id : String) : String :=
  if is_safe_key node_id then node_id
  else "h-" ++ String.ofList ((sha256 node_id).toList.take 40)

end EmergentFlow
