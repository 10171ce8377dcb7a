import EmergentFlow.Ir.MigrateLaws
import EmergentFlow.Lib.Cells

/-!
# Ir — MigrateHeap

The migration of a graph document (`emergentflow/ir/migrate.py`) as the interpreter runs
it, on dictionaries that are cells of a heap. `dict(doc)` allocates, `doc[key] = value`
writes in place, and a value that is stored twice is shared.

`migrate_level_runs` ties a run to the migration of `Ir.Migrate`: what it returns shows
the migrated document, or it raises the same error, and in either case the heap it was
given is extended only. What the walk writes to is always a dictionary it made itself (`Draft`).
-/

namespace EmergentFlow.Wire.Stored

open Cells (Heap Prog Extends newer)

/-- What a key of a dictionary holds; a value that is no dictionary is never looked into. -/
inductive Value where
  | atom (value : Json)
  | ref (address : Nat)
  deriving Repr

abbrev Cell : Type := List (String × Value)

abbrev Run (α : Type) : Type := Prog MigrateError Cell α

/-! ## The program -/

/-- `dict(doc)`. -/
def copy (doc : Nat) : Run Nat := do
  let members ← Prog.read doc
  Prog.alloc members

/-- `doc[key] = value`. -/
def set (doc : Nat) (key : String) (value : Value) : Run Unit :=
  Prog.modify doc (Dict.setL key value)

/-- `doc.get(key)`. -/
def get (doc : Nat) (key : String) : Run (Option Value) := do
  let members ← Prog.read doc
  return members.lookup key

def migrate_v0_to_v1 (doc : Nat) : Run Nat := do
  let doc ← copy doc
  match ← get doc "mode" with
  | some mode =>
      Prog.modify doc (Dict.eraseL "mode")
      set doc "paradigm" mode
      return doc
  | none => return doc

def migrate_v1_to_v2 (doc : Nat) : Run Nat := do
  let doc ← copy doc
  match ← get doc "params" with
  | some _ => return doc
  | none =>
      let params ← Prog.alloc []
      set doc "params" (.ref params)
      return doc

def migrations (v : Int) : Option (Nat → Run Nat) :=
  if v = 0 then some migrate_v0_to_v1 else if v = 1 then some migrate_v1_to_v2 else none

def migrate_steps : Nat → Int → Nat → Run Nat
  | 0, _, doc => return doc
  | n + 1, v, doc =>
      match migrations v with
      | none => Prog.fail .MigrationError
      | some step => do
          let doc ← step doc
          set doc "schema_version" (.atom (.int (v + 1)))
          migrate_steps n (v + 1) doc

/-- `migrate_to_current`: the copy comes first, whatever the version is. -/
def migrate_to_current (doc : Nat) (found : Value) : Run Nat := do
  let doc ← copy doc
  let to_number (found : Int) : Run Nat :=
    if found = CURRENT_SCHEMA_VERSION then return doc
    else if CURRENT_SCHEMA_VERSION < found then Prog.fail .MigrationError
    else migrate_steps (CURRENT_SCHEMA_VERSION - found).toNat found doc
  match found with
  | .atom (.int found) => to_number found
  | .atom (.bool found) => to_number (if found then 1 else 0)
  -- a float can be compared with the version, but is no bound of a `range`
  | .atom (.float (.finite x)) =>
      if x = 2 then return doc else Prog.fail (if 2 < x then .MigrationError else .TypeError)
  | .atom (.float (.infinity false)) => Prog.fail .MigrationError
  | _ => Prog.fail .TypeError

/-- `_migrate_node`. -/
def migrate_node (level : Nat → Run Nat) (node : Value) : Run Value :=
  match node with
  | .atom _ => return node
  | .ref members => do
      match ← get members "subgraph" with
      | some (.ref sub) =>
          let fresh ← copy members
          let migrated ← level sub
          set fresh "subgraph" (.ref migrated)
          return .ref fresh
      | _ => return node

/-- The entries of the new dictionary of nodes, one after the other. -/
def migrate_items (level : Nat → Run Nat) : Cell → Run Cell
  | [] => return []
  | (nid, node) :: rest => do
      let migrated ← migrate_node level node
      let items ← migrate_items level rest
      return (nid, migrated) :: items

/-- `_migrate_graph_level` with room for that many levels. -/
def migrate_graph_level : Nat → Nat → Run Nat
  | 0, _ => Prog.fail .RecursionError
  | room + 1, g => do
      let found ← get g "schema_version"
      let g ← migrate_to_current g (found.getD (.atom (.int INITIAL_SCHEMA_VERSION)))
      match ← get g "nodes" with
      | some (.ref nodes) =>
          let members ← Prog.read nodes
          let items ← migrate_items (migrate_graph_level room) members
          let fresh ← Prog.alloc items
          set g "nodes" (.ref fresh)
          return g
      | _ => return g

/-! ## What a heap shows -/

/-- The document that a value stands for, to that depth, with its dictionaries among
the addresses `S`. -/
def ShowsTo (h : Heap Cell) (S : Set Nat) : Nat → Value → Json → Prop
  | _, .atom value, doc => doc = value ∧ doc.isObj = false
  | 0, .ref _, _ => False
  | n + 1, .ref a, .obj doc =>
      a ∈ S ∧ ∃ members, h[a]? = some members ∧
        List.Forall₂ (fun m m' => m.1 = m'.1 ∧ ShowsTo h S n m.2 m'.2) members doc
  | _ + 1, .ref _, _ => False

def Shows (h : Heap Cell) (S : Set Nat) (v : Value) (doc : Json) : Prop :=
  ∃ n, ShowsTo h S n v doc

/-- Entry by entry. -/
def ShowsAll (h : Heap Cell) (S : Set Nat) (members : Cell) (doc : Members) : Prop :=
  List.Forall₂ (fun m m' => m.1 = m'.1 ∧ Shows h S m.2 m'.2) members doc

variable {h h' : Heap Cell} {S S' : Set Nat} {v : Value} {j : Json}

theorem ShowsTo.mono {n : Nat} (hS : ∀ a ∈ S, a ∈ S')
    (hh : ∀ a ∈ S, ∀ c, h[a]? = some c → h'[a]? = some c) (hv : ShowsTo h S n v j) :
    ShowsTo h' S' (n + 1) v j := by
  induction n generalizing v j with
  | zero =>
      cases v with
      | atom value => exact hv
      | ref a => cases hv
  | succ n ih =>
      cases v with
      | atom value => exact hv
      | ref a =>
          cases j with
          | obj doc =>
              obtain ⟨ha, members, hcell, hmembers⟩ := hv
              exact ⟨hS a ha, members, hh a ha members hcell,
                hmembers.imp fun _ _ hm => ⟨hm.1, ih hm.2⟩⟩
          | _ => cases hv

/-- Heaps that agree on the addresses of a value show the same. -/
theorem Shows.frame (hS : ∀ a ∈ S, a ∈ S')
    (hh : ∀ a ∈ S, ∀ c, h[a]? = some c → h'[a]? = some c) (hv : Shows h S v j) :
    Shows h' S' v j := by
  obtain ⟨n, hn⟩ := hv
  exact ⟨n + 1, hn.mono hS hh⟩

theorem ShowsTo.le {m n : Nat} (hmn : m ≤ n) (hv : ShowsTo h S m v j) : ShowsTo h S n v j := by
  induction hmn with
  | refl => exact hv
  | step _ ih => exact ih.mono (fun _ => id) fun _ _ _ => id

theorem shows_atom {value : Json} : Shows h S (.atom value) j ↔ j = value ∧ j.isObj = false := by
  constructor
  · rintro ⟨n, hn⟩
    cases n <;> exact hn
  · intro hv
    exact ⟨0, hv⟩

theorem shows_ref {a : Nat} : Shows h S (.ref a) j ↔
    ∃ doc, j = .obj doc ∧ a ∈ S ∧ ∃ members, h[a]? = some members ∧ ShowsAll h S members doc := by
  constructor
  · rintro ⟨n, hn⟩
    cases n with
    | zero => cases hn
    | succ n =>
        cases j with
        | obj doc =>
            obtain ⟨ha, members, hcell, hmembers⟩ := hn
            exact ⟨doc, rfl, ha, members, hcell, hmembers.imp fun _ _ hm => ⟨hm.1, n, hm.2⟩⟩
        | _ => cases hn
  · rintro ⟨doc, rfl, ha, members, hcell, hmembers⟩
    -- one depth for all entries
    have hdepth : ∃ n, List.Forall₂ (fun m m' => m.1 = m'.1 ∧ ShowsTo h S n m.2 m'.2)
        members doc := by
      clear hcell
      induction hmembers with
      | nil => exact ⟨0, .nil⟩
      | cons hm _ ih =>
          obtain ⟨n, hn⟩ := ih
          obtain ⟨hkey, m, hm⟩ := hm
          exact ⟨max m n, .cons ⟨hkey, hm.le (Nat.le_max_left m n)⟩
            (hn.imp fun _ _ hv => ⟨hv.1, hv.2.le (Nat.le_max_right m n)⟩)⟩
    obtain ⟨n, hn⟩ := hdepth
    exact ⟨n + 1, ha, members, hcell, hn⟩

/-! ## Entries -/

theorem ShowsAll.frame {members : Cell} {doc : Members} (hS : ∀ a ∈ S, a ∈ S')
    (hh : ∀ a ∈ S, ∀ c, h[a]? = some c → h'[a]? = some c) (hm : ShowsAll h S members doc) :
    ShowsAll h' S' members doc :=
  hm.imp fun _ _ he => ⟨he.1, he.2.frame hS hh⟩

theorem ShowsAll.lookup {members : Cell} {doc : Members} (hm : ShowsAll h S members doc)
    (key : String) : Option.Rel (Shows h S) (members.lookup key) (doc.lookup key) := by
  induction hm with
  | nil => exact .none
  | @cons m m' members doc he _ ih =>
      obtain ⟨k, v⟩ := m
      obtain ⟨k', j⟩ := m'
      obtain ⟨rfl, hv⟩ := he
      rw [List.lookup_cons, List.lookup_cons]
      cases key == k with
      | true => exact .some hv
      | false => exact ih

/-- A key holds a dictionary on both sides or on neither. -/
theorem rel_dict {found : Option Value} {value : Option Json}
    (hrel : Option.Rel (Shows h S) found value) :
    (∃ b sub, found = some (.ref b) ∧ value = some (.obj sub) ∧ Shows h S (.ref b) (.obj sub)) ∨
      ((∀ b, found ≠ some (.ref b)) ∧ ∀ sub, value ≠ some (.obj sub)) := by
  cases hrel with
  | none => exact .inr ⟨nofun, nofun⟩
  | @some v j hv =>
      cases v with
      | ref b =>
          obtain ⟨sub, rfl, -⟩ := shows_ref.mp hv
          exact .inl ⟨b, sub, rfl, rfl, hv⟩
      | atom value =>
          obtain ⟨rfl, hobj⟩ := shows_atom.mp hv
          refine .inr ⟨nofun, fun sub hsub => ?_⟩
          rw [Option.some.inj hsub] at hobj
          cases hobj

theorem ShowsAll.setL {members : Cell} {doc : Members} (hm : ShowsAll h S members doc)
    (key : String) (hv : Shows h S v j) :
    ShowsAll h S (Dict.setL key v members) (Dict.setL key j doc) := by
  induction hm with
  | nil => exact .cons ⟨rfl, hv⟩ .nil
  | @cons m m' members doc he hrest ih =>
      obtain ⟨k, w⟩ := m
      obtain ⟨k', i⟩ := m'
      obtain ⟨rfl, hw⟩ := he
      by_cases hk : k = key
      · simp only [Dict.setL, hk, if_true]
        exact .cons ⟨rfl, hv⟩ hrest
      · simp only [Dict.setL, hk, if_false]
        exact .cons ⟨rfl, hw⟩ ih

theorem ShowsAll.eraseL {members : Cell} {doc : Members} (hm : ShowsAll h S members doc)
    (key : String) : ShowsAll h S (Dict.eraseL key members) (Dict.eraseL key doc) := by
  induction hm with
  | nil => exact .nil
  | @cons m m' members doc he _ ih =>
      obtain ⟨k, w⟩ := m
      obtain ⟨k', i⟩ := m'
      obtain ⟨rfl, hw⟩ := he
      simp only [Dict.eraseL, List.filter_cons] at ih ⊢
      split
      · exact .cons ⟨rfl, hw⟩ ih
      · exact ih

/-! ## Dictionaries of one's own -/

/-- The addresses of the document that was given and of what was made since. -/
def reached (h : Heap Cell) (S : Set Nat) (h' : Heap Cell) : Set Nat := S ∪ newer h h'

/-- A dictionary made since the heap `h`, to which nothing that it holds refers. -/
structure Draft (h : Heap Cell) (S : Set Nat) (h' : Heap Cell) (a : Nat) (doc : Members) :
    Prop where
  extends_ : Extends h h'
  fresh : a ∈ newer h h'
  cell : ∃ members, h'[a]? = some members ∧ ShowsAll h' (reached h S h' \ {a}) members doc

section Drafts

variable {h₀ h₁ : Heap Cell} {doc : Members} {a : Nat}

theorem reached_mono {h₂ : Heap Cell} (hext : Extends h₁ h₂) {b : Nat}
    (hb : b ∈ reached h S h₁) : b ∈ reached h S h₂ := by
  rcases hb with hb | hb
  · exact .inl hb
  · exact .inr ⟨hb.1, Nat.lt_of_lt_of_le hb.2 hext.length⟩

theorem reached_lt (hS : ∀ b ∈ S, b < h.length) (hext : Extends h h₁) {b : Nat}
    (hb : b ∈ reached h S h₁) : b < h₁.length := by
  rcases hb with hb | hb
  · exact Nat.lt_of_lt_of_le (hS b hb) hext.length
  · exact hb.2

theorem Draft.shows (hd : Draft h S h₁ a doc) :
    Shows h₁ (reached h S h₁) (.ref a) (.obj doc) := by
  obtain ⟨members, hcell, hmembers⟩ := hd.cell
  exact shows_ref.mpr ⟨doc, rfl, .inr hd.fresh, members, hcell,
    hmembers.frame (fun _ hb => hb.1) fun _ _ _ => id⟩

/-- A copy is a draft, of a document that was given or of another draft. -/
theorem draft_copy (hS : ∀ b ∈ S, b < h.length) (hext : Extends h h₁)
    (hdoc : Shows h₁ (reached h S h₁) (.ref a) (.obj doc)) :
    ∃ h₂ b, copy a h₁ = (.ok b, h₂) ∧ Draft h S h₂ b doc := by
  obtain ⟨_, hobj, -, members, hcell, hmembers⟩ := shows_ref.mp hdoc
  cases hobj
  have hnext : Extends h₁ (h₁ ++ [members]) := Extends.alloc h₁ members
  refine ⟨h₁ ++ [members], h₁.length, ?_, hext.trans hnext, ?_, members,
    Cells.getElem?_alloc h₁ members, ?_⟩
  · rw [copy, Prog.bind_ok (Prog.read_run hcell)]
    rfl
  · exact ⟨hext.length, by simp⟩
  · exact hmembers.frame
      (fun b hb => ⟨reached_mono hnext hb, Nat.ne_of_lt (reached_lt hS hext hb)⟩)
      fun b _ => hnext.cells b

theorem reached_modify (f : Cell → Cell) :
    reached h S (h₁.modify a f) = reached h S h₁ := by
  rw [reached, reached, newer, newer, List.length_modify]

/-- Writing to a cell changes nothing that does not refer to it. -/
theorem Shows.modify (f : Cell → Cell) (hv : Shows h₁ (reached h S h₁ \ {a}) v j) :
    Shows (h₁.modify a f) (reached h S (h₁.modify a f) \ {a}) v j := by
  rw [reached_modify]
  refine hv.frame (fun _ => id) fun b hb c hc => ?_
  have hne : a ≠ b := fun heq => hb.2 heq.symm
  rw [List.getElem?_modify, hc]
  simp [hne]

/-- Writing to a draft. -/
theorem Draft.modify (hd : Draft h S h₁ a doc) {f : Cell → Cell} {doc' : Members}
    (hf : ∀ members, ShowsAll h₁ (reached h S h₁ \ {a}) members doc →
      ShowsAll h₁ (reached h S h₁ \ {a}) (f members) doc') :
    Draft h S (h₁.modify a f) a doc' := by
  obtain ⟨members, hcell, hmembers⟩ := hd.cell
  refine ⟨hd.extends_.modify hd.fresh.1 f, ?_, f members,
    Cells.getElem?_modify_self hcell f, ?_⟩
  · rw [newer, List.length_modify]
    exact hd.fresh
  · exact (hf members hmembers).imp fun _ _ hm => ⟨hm.1, hm.2.modify f⟩

theorem Draft.set (hd : Draft h S h₁ a doc) (key : String)
    (hv : Shows h₁ (reached h S h₁ \ {a}) v j) :
    ∃ h₂, Stored.set a key v h₁ = (.ok (), h₂) ∧ Draft h S h₂ a (Dict.setL key j doc) :=
  ⟨_, rfl, hd.modify fun _ hm => hm.setL key hv⟩

theorem get_run {members : Cell} (hcell : h[a]? = some members) (key : String) :
    get a key h = (.ok (members.lookup key), h) := by
  rw [get, Prog.bind_ok (Prog.read_run hcell)]
  rfl

theorem Draft.get (hd : Draft h S h₁ a doc) (key : String) :
    ∃ found, Stored.get a key h₁ = (.ok found, h₁) ∧
      Option.Rel (Shows h₁ (reached h S h₁ \ {a})) found (doc.lookup key) := by
  obtain ⟨members, hcell, hmembers⟩ := hd.cell
  exact ⟨members.lookup key, get_run hcell key, hmembers.lookup key⟩

/-- A draft is not touched while others are made. -/
theorem Draft.extend (hd : Draft h S h₁ a doc) {h₂ : Heap Cell} (hext : Extends h₁ h₂) :
    Draft h S h₂ a doc := by
  obtain ⟨members, hcell, hmembers⟩ := hd.cell
  refine ⟨hd.extends_.trans hext, ⟨hd.fresh.1, Nat.lt_of_lt_of_le hd.fresh.2 hext.length⟩, members,
    hext.cells a members hcell, ?_⟩
  exact hmembers.frame (fun b hb => ⟨reached_mono hext hb.1, hb.2⟩) fun b _ => hext.cells b

/-- What is reached from what does not reach a draft does not reach it either. -/
theorem Draft.reached_apart (hd : Draft h S h₁ a doc) {h₂ : Heap Cell} (hext : Extends h₁ h₂)
    {b : Nat} (hb : b ∈ reached h₁ (reached h S h₁ \ {a}) h₂) : b ∈ reached h S h₂ \ {a} := by
  rcases hb with hb | hb
  · exact ⟨reached_mono hext hb.1, hb.2⟩
  · exact ⟨.inr ⟨Nat.le_trans hd.extends_.length hb.1, hb.2⟩,
      Nat.ne_of_gt (Nat.lt_of_lt_of_le hd.fresh.2 hb.1)⟩

/-- A new dictionary is one that the draft does not hold yet. -/
theorem Draft.alloc (hd : Draft h S h₁ a doc) {items : Cell} {members : Members}
    (hitems : ShowsAll h₁ (reached h S h₁ \ {a}) items members) :
    Shows (h₁ ++ [items]) (reached h S (h₁ ++ [items]) \ {a}) (.ref h₁.length)
      (.obj members) := by
  have hnext : Extends h₁ (h₁ ++ [items]) := Extends.alloc h₁ items
  refine shows_ref.mpr ⟨members, rfl, ⟨.inr ⟨hd.extends_.length, by simp⟩,
    Nat.ne_of_gt hd.fresh.2⟩, items, Cells.getElem?_alloc h₁ items, ?_⟩
  exact hitems.frame (fun b hb => ⟨reached_mono hnext hb.1, hb.2⟩) fun b _ => hnext.cells b

end Drafts

/-! ## Runs against the migration of a document -/

/-- A run that ends as a migration does: with a value that `R` relates to the other's, or
with the same error and nothing of the first heap changed. -/
def Agrees {α β : Type} (h : Heap Cell) (r : Except MigrateError α × Heap Cell)
    (x : Except MigrateError β) (R : Heap Cell → α → β → Prop) : Prop :=
  match x with
  | .ok b => ∃ a h', r = (.ok a, h') ∧ R h' a b
  | .error e => ∃ h', r = (.error e, h') ∧ Extends h h'

theorem Agrees.bind {α β γ δ : Type} {h h₁ : Heap Cell} {p : Run α} {f : α → Run γ}
    {x : Except MigrateError β} {g : β → Except MigrateError δ} {R : Heap Cell → α → β → Prop}
    {T : Heap Cell → γ → δ → Prop} (hp : Agrees h (p h₁) x R)
    (hf : ∀ h' a b, R h' a b → Agrees h (f a h') (g b) T) :
    Agrees h ((p >>= f) h₁) (x >>= g) T := by
  cases x with
  | error e =>
      obtain ⟨h', hrun, hext⟩ := hp
      exact ⟨h', Prog.bind_error hrun, hext⟩
  | ok b =>
      obtain ⟨a, h', hrun, hR⟩ := hp
      rw [Prog.bind_ok hrun]
      exact hf h' a b hR

theorem Agrees.map {α β δ : Type} {h : Heap Cell} {r : Except MigrateError α × Heap Cell}
    {x : Except MigrateError β} {g : β → δ} {R : Heap Cell → α → β → Prop}
    {T : Heap Cell → α → δ → Prop} (hr : Agrees h r x R)
    (hT : ∀ h' a b, R h' a b → T h' a (g b)) : Agrees h r (x.map g) T := by
  cases x with
  | error e => exact hr
  | ok b =>
      obtain ⟨a, h', hrun, hR⟩ := hr
      exact ⟨a, h', hrun, hT h' a b hR⟩

theorem Agrees.bind_map {α β γ δ : Type} {h h₁ : Heap Cell} {p : Run α} {f : α → Run γ}
    {x : Except MigrateError β} {g : β → δ} {R : Heap Cell → α → β → Prop}
    {T : Heap Cell → γ → δ → Prop} (hp : Agrees h (p h₁) x R)
    (hf : ∀ h' a b, R h' a b → Agrees h (f a h') (.ok (g b)) T) :
    Agrees h ((p >>= f) h₁) (x.map g) T := by
  have hmap : x.map g = x >>= fun b => .ok (g b) := by cases x <;> rfl
  rw [hmap]
  exact hp.bind hf

/-- A step of the run that the migration of a document does not see. -/
theorem Agrees.silent {α β γ : Type} {h h₁ h₂ : Heap Cell} {p : Run α} {f : α → Run γ} {a : α}
    {x : Except MigrateError β} {T : Heap Cell → γ → β → Prop} (hp : p h₁ = (.ok a, h₂))
    (hf : Agrees h (f a h₂) x T) : Agrees h ((p >>= f) h₁) x T := by
  rwa [Prog.bind_ok hp]

/-- From a later heap to an earlier one. -/
theorem Agrees.earlier {α β : Type} {h h₁ : Heap Cell} {r : Except MigrateError α × Heap Cell}
    {x : Except MigrateError β} {R : Heap Cell → α → β → Prop} (hext : Extends h h₁)
    (hr : Agrees h₁ r x R) : Agrees h r x R := by
  cases x with
  | error e =>
      obtain ⟨h', hrun, hext'⟩ := hr
      exact ⟨h', hrun, hext.trans hext'⟩
  | ok b => exact hr

section Runs

variable {h₁ : Heap Cell} {doc : Members} {a : Nat}

theorem migrate_v0_to_v1_runs (hS : ∀ b ∈ S, b < h.length) (hd : Draft h S h₁ a doc) :
    ∃ h₂ b, migrate_v0_to_v1 a h₁ = (.ok b, h₂) ∧
      Draft h S h₂ b (Wire.migrate_v0_to_v1 doc) := by
  obtain ⟨h₂, b, hcopy, hb⟩ := draft_copy hS hd.extends_ hd.shows
  obtain ⟨found, hget, hfound⟩ := hb.get "mode"
  rw [migrate_v0_to_v1, Prog.bind_ok hcopy, Prog.bind_ok hget, Wire.migrate_v0_to_v1]
  cases hmode : doc.lookup "mode" with
  | none =>
      rw [hmode] at hfound
      cases hfound
      exact ⟨h₂, b, rfl, hb⟩
  | some mode =>
      rw [hmode] at hfound
      cases hfound with
      | @some mode' _ hv =>
          have herase := hb.modify fun _ hm => hm.eraseL "mode"
          obtain ⟨h₃, hset, hd₃⟩ := herase.set "paradigm" (hv.modify _)
          refine ⟨h₃, b, ?_, hd₃⟩
          show (Prog.modify b (Dict.eraseL "mode") >>= fun _ =>
            Stored.set b "paradigm" mode' >>= fun _ => pure b) h₂ = _
          rw [Prog.bind_ok (show Prog.modify b (Dict.eraseL "mode") h₂ = (.ok (), _) from rfl),
            Prog.bind_ok hset, Prog.pure_run]

theorem migrate_v1_to_v2_runs (hS : ∀ b ∈ S, b < h.length) (hd : Draft h S h₁ a doc) :
    ∃ h₂ b, migrate_v1_to_v2 a h₁ = (.ok b, h₂) ∧
      Draft h S h₂ b (Wire.migrate_v1_to_v2 doc) := by
  obtain ⟨h₂, b, hcopy, hb⟩ := draft_copy hS hd.extends_ hd.shows
  obtain ⟨found, hget, hfound⟩ := hb.get "params"
  rw [migrate_v1_to_v2, Prog.bind_ok hcopy, Prog.bind_ok hget, Wire.migrate_v1_to_v2]
  cases hparams : doc.lookup "params" with
  | some params =>
      rw [hparams] at hfound
      cases hfound
      exact ⟨h₂, b, rfl, hb⟩
  | none =>
      rw [hparams] at hfound
      cases hfound
      -- the empty map is a cell of its own
      have hempty := hb.extend (Extends.alloc h₂ [])
      obtain ⟨h₃, hset, hd₃⟩ := hempty.set "params" (hb.alloc .nil)
      refine ⟨h₃, b, ?_, hd₃⟩
      show (Prog.alloc [] >>= fun params =>
        Stored.set b "params" (.ref params) >>= fun _ => pure b) h₂ = _
      rw [Prog.bind_ok (show Prog.alloc [] h₂ = (.ok h₂.length, _) from rfl), Prog.bind_ok hset,
        Prog.pure_run]

/-- The registry of the runs is that of the documents, step by step. -/
theorem migrations_run (v : Int) :
    (Wire.migrations v = none ∧ migrations v = none) ∨
      ∃ step run, Wire.migrations v = some step ∧ migrations v = some run ∧
        ∀ {h h₁ : Heap Cell} {S : Set Nat} {a : Nat} {doc : Members}, (∀ b ∈ S, b < h.length) →
          Draft h S h₁ a doc → ∃ h₂ b, run a h₁ = (.ok b, h₂) ∧ Draft h S h₂ b (step doc) := by
  rw [Wire.migrations, migrations]
  split
  · exact .inr ⟨_, _, rfl, rfl, migrate_v0_to_v1_runs⟩
  · split
    · exact .inr ⟨_, _, rfl, rfl, migrate_v1_to_v2_runs⟩
    · exact .inl ⟨rfl, rfl⟩

theorem migrate_steps_run (hS : ∀ b ∈ S, b < h.length) (n : Nat) (v : Int)
    (hd : Draft h S h₁ a doc) :
    Agrees h (migrate_steps n v a h₁) (Wire.migrate_steps n v doc) fun h' b doc' =>
      Draft h S h' b doc' := by
  induction n generalizing v h₁ a doc with
  | zero => exact ⟨a, h₁, rfl, hd⟩
  | succ n ih =>
      rw [migrate_steps, Wire.migrate_steps]
      obtain ⟨hnone, hnone'⟩ | ⟨step, run, hstep, hrun, hspec⟩ := migrations_run v
      · rw [hnone, hnone']
        exact ⟨h₁, rfl, hd.extends_⟩
      · obtain ⟨h₂, b, hrun', hb⟩ := hspec hS hd
        have hversion : Shows h₂ (reached h S h₂ \ {b}) (.atom (.int (v + 1))) (.int (v + 1)) :=
          shows_atom.mpr ⟨rfl, rfl⟩
        obtain ⟨h₃, hset, hd₃⟩ := hb.set "schema_version" hversion
        rw [hstep, hrun]
        exact .silent hrun' (.silent hset (ih (v + 1) hd₃))

/-- What stands for the version in the heap and in the document. -/
theorem migrate_to_current_runs (hS : ∀ b ∈ S, b < h.length)
    (hdoc : Shows h S (.ref a) (.obj doc)) {found : Value} {version : Json}
    (hfound : Shows h S found version) :
    Agrees h (migrate_to_current a found h) (Wire.migrate_found doc version) fun h' b doc' =>
      Draft h S h' b doc' := by
  -- the copy is the only cell that a step writes to
  have hreached : Shows h (reached h S h) (.ref a) (.obj doc) :=
    hdoc.frame (fun _ hb => .inl hb) fun _ _ _ => id
  obtain ⟨h₁, b, hcopy, hb⟩ := draft_copy hS (Extends.refl h) hreached
  have hfail : ∀ e : MigrateError, Agrees h ((Prog.fail e : Run Nat) h₁) (.error e)
      fun h' b doc' => Draft h S h' b doc' := fun e => ⟨h₁, rfl, hb.extends_⟩
  have hdone : Agrees h ((pure b : Run Nat) h₁) (.ok doc) fun h' b doc' => Draft h S h' b doc' :=
    ⟨b, h₁, rfl, hb⟩
  have hnumber : ∀ i : Int, Agrees h
      ((if i = CURRENT_SCHEMA_VERSION then pure b
        else if CURRENT_SCHEMA_VERSION < i then Prog.fail .MigrationError
        else migrate_steps (CURRENT_SCHEMA_VERSION - i).toNat i b : Run Nat) h₁)
      (Wire.migrate_to_current doc i) fun h' b doc' => Draft h S h' b doc' := by
    intro i
    rw [Wire.migrate_to_current]
    split
    · exact hdone
    · split
      · exact hfail _
      · exact migrate_steps_run hS _ _ hb
  refine .silent hcopy ?_
  cases found with
  | ref b' =>
      obtain ⟨_, rfl, -⟩ := shows_ref.mp hfound
      exact hfail _
  | atom value =>
      obtain ⟨rfl, hobj⟩ := shows_atom.mp hfound
      cases version with
      | int i => exact hnumber i
      | bool b => exact hnumber _
      | float x =>
          cases x with
          | finite x =>
              rw [Wire.migrate_found]
              by_cases hx : x = 2
              · simp only [hx, if_true]
                exact hdone
              · simp only [hx, if_false]
                exact hfail _
          | infinity negative => cases negative <;> exact hfail _
          | nan => exact hfail _
      | obj members => cases hobj
      | _ => exact hfail _

/-! ## A level and its nodes -/

/-- A run on a document that the heap shows. -/
def LevelRuns (run : Nat → Run Nat) (level : Members → Except MigrateError Members) : Prop :=
  ∀ {h : Heap Cell} {S : Set Nat} {g : Nat} {doc : Members}, (∀ b ∈ S, b < h.length) →
    Shows h S (.ref g) (.obj doc) → Agrees h (run g h) (level doc) fun h' b doc' =>
      Extends h h' ∧ Shows h' (reached h S h') (.ref b) (.obj doc')

variable {run : Nat → Run Nat} {level : Members → Except MigrateError Members}

theorem migrate_node_of_not {members : Members}
    (h : ∀ sub, members.lookup "subgraph" ≠ some (.obj sub)) :
    Wire.migrate_node level (.obj members) = .ok (.obj members) := by
  rw [Wire.migrate_node]
  split
  · exact absurd ‹_› (h _)
  · rfl

theorem migrate_nodes_of_not (h : ∀ nodes, doc.lookup "nodes" ≠ some (.obj nodes)) :
    migrate_nodes level doc = .ok doc := by
  rw [migrate_nodes]
  split
  · exact absurd ‹_› (h _)
  · rfl

/-- The copy of a node is a draft while the inner graph is migrated. -/
theorem migrate_subgraph_runs (hlevel : LevelRuns run level) (hS : ∀ b ∈ S, b < h.length)
    (hdoc : Shows h S (.ref a) (.obj doc)) {b : Nat} {sub : Members}
    (hsub : Shows h S (.ref b) (.obj sub)) :
    Agrees h
      ((do
        let fresh ← copy a
        let migrated ← run b
        set fresh "subgraph" (.ref migrated)
        return .ref fresh : Run Value) h)
      ((level sub).map fun sub => .obj (Dict.setL "subgraph" (.obj sub) doc)) fun h' v' j' =>
        Extends h h' ∧ Shows h' (reached h S h') v' j' := by
  obtain ⟨h₁, c, hcopy, hc⟩ := draft_copy hS (Extends.refl h)
    (hdoc.frame (fun _ hb => .inl hb) fun _ _ _ => id)
  have hsub₁ : Shows h₁ (reached h S h₁ \ {c}) (.ref b) (.obj sub) :=
    hsub.frame (fun d hd => ⟨.inl hd, Nat.ne_of_lt (Nat.lt_of_lt_of_le (hS d hd) hc.fresh.1)⟩)
      fun d _ => hc.extends_.cells d
  have hrun := hlevel (fun d hd => reached_lt hS hc.extends_ hd.1) hsub₁
  refine .silent hcopy ((hrun.earlier hc.extends_).bind_map fun h₂ b' sub' ⟨hext, hb'⟩ => ?_)
  obtain ⟨h₃, hset, hd₃⟩ := (hc.extend hext).set "subgraph"
    (hb'.frame (fun d => hc.reached_apart hext) fun _ _ _ => id)
  exact .silent hset ⟨.ref c, h₃, rfl, hd₃.extends_, hd₃.shows⟩

theorem migrate_node_runs (hlevel : LevelRuns run level) (hS : ∀ b ∈ S, b < h.length)
    (hv : Shows h S v j) :
    Agrees h (migrate_node run v h) (Wire.migrate_node level j) fun h' v' j' =>
      Extends h h' ∧ Shows h' (reached h S h') v' j' := by
  have hsame : Agrees h ((pure v : Run Value) h) (.ok j) fun h' v' j' =>
      Extends h h' ∧ Shows h' (reached h S h') v' j' :=
    ⟨v, h, rfl, Extends.refl h, hv.frame (fun _ hb => .inl hb) fun _ _ _ => id⟩
  cases v with
  | atom value =>
      obtain ⟨rfl, hobj⟩ := shows_atom.mp hv
      cases j with
      | obj members => cases hobj
      | _ => exact hsame
  | ref a =>
      obtain ⟨doc, rfl, -, members, hcell, hmembers⟩ := shows_ref.mp hv
      refine .silent (get_run hcell "subgraph") ?_
      obtain ⟨b, sub, hm, hd, hw⟩ | ⟨hm, hd⟩ := rel_dict (hmembers.lookup "subgraph")
      · simp only [Wire.migrate_node, hm, hd]
        exact migrate_subgraph_runs hlevel hS hv hw
      · rw [migrate_node_of_not hd]
        cases hfound : members.lookup "subgraph" with
        | none => exact hsame
        | some w =>
            cases w with
            | atom value => exact hsame
            | ref b => exact absurd hfound (hm b)

theorem migrate_items_run (hlevel : LevelRuns run level) {members : Cell} {nodes : Members}
    (hS : ∀ b ∈ S, b < h.length) (hm : ShowsAll h S members nodes) :
    Agrees h (migrate_items run members h)
      (nodes.mapM fun m => (Wire.migrate_node level m.2).map (m.1, ·)) fun h' items nodes' =>
        Extends h h' ∧ ShowsAll h' (reached h S h') items nodes' := by
  induction members generalizing h nodes with
  | nil =>
      cases hm
      exact ⟨[], h, rfl, Extends.refl h, .nil⟩
  | cons m rest ih =>
      cases hm with
      | @cons _ m' _ rest' he hrest =>
          obtain ⟨nid, node⟩ := m
          obtain ⟨nid', node'⟩ := m'
          obtain ⟨rfl, hv⟩ := he
          have hnode : Agrees h (migrate_node run node h)
              ((Wire.migrate_node level node').map (nid, ·)) fun h' v' m' =>
                Extends h h' ∧ m'.1 = nid ∧ Shows h' (reached h S h') v' m'.2 :=
            (migrate_node_runs hlevel hS hv).map fun _ _ _ ⟨hext, hv'⟩ => ⟨hext, rfl, hv'⟩
          rw [migrate_items, List.mapM_cons]
          refine hnode.bind fun h₁ v' m' ⟨hext, hkey, hv'⟩ => ?_
          have hrest' : ShowsAll h₁ S rest rest' :=
            ShowsAll.frame (fun _ => id) (fun b _ => hext.cells b) hrest
          have hS₁ : ∀ b ∈ S, b < h₁.length := fun b hb =>
            Nat.lt_of_lt_of_le (hS b hb) hext.length
          -- the node just migrated is not touched by those after it
          refine ((ih hS₁ hrest').earlier hext).bind fun h₂ items nodes' ⟨hext', hitems⟩ => ?_
          refine ⟨(nid, v') :: items, h₂, rfl, hext.trans hext', .cons ⟨hkey.symm, ?_⟩ ?_⟩
          · exact hv'.frame (fun _ => reached_mono hext') fun b _ => hext'.cells b
          · refine hitems.frame (fun b hb => ?_) fun _ _ _ => id
            rcases hb with hb | hb
            · exact .inl hb
            · exact .inr ⟨Nat.le_trans hext.length hb.1, hb.2⟩

/-- The draft of a level takes the new dictionary of nodes once it is complete. -/
theorem rebuild_nodes_runs (hlevel : LevelRuns run level) (hS : ∀ b ∈ S, b < h.length)
    (ha : Draft h S h₁ a doc) {b : Nat} {nodes : Members}
    (hnodes : Shows h₁ (reached h S h₁ \ {a}) (.ref b) (.obj nodes)) :
    Agrees h
      ((do
        let members ← Prog.read b
        let items ← migrate_items run members
        let fresh ← Prog.alloc items
        set a "nodes" (.ref fresh)
        return a : Run Nat) h₁)
      ((nodes.mapM fun m => (Wire.migrate_node level m.2).map (m.1, ·)).map fun nodes =>
        Dict.setL "nodes" (.obj nodes) doc) fun h' b doc' =>
          Extends h h' ∧ Shows h' (reached h S h') (.ref b) (.obj doc') := by
  obtain ⟨_, hobj, -, entries, hentries, hshow⟩ := shows_ref.mp hnodes
  cases hobj
  have hitems := migrate_items_run hlevel (fun d hd => reached_lt hS ha.extends_ hd.1) hshow
  refine .silent (Prog.read_run hentries)
    ((hitems.earlier ha.extends_).bind_map fun h₂ items nodes' ⟨hext, hshow'⟩ => ?_)
  have ha₂ := ha.extend hext
  have hfresh := ha₂.alloc (hshow'.frame (fun d => ha.reached_apart hext) fun _ _ _ => id)
  obtain ⟨h₃, hset, hd₃⟩ := (ha₂.extend (Extends.alloc h₂ items)).set "nodes" hfresh
  exact .silent (show Prog.alloc items h₂ = (.ok h₂.length, h₂ ++ [items]) from rfl)
    (.silent hset ⟨a, h₃, rfl, hd₃.extends_, hd₃.shows⟩)

theorem shows_found_version {members : Cell} (hm : ShowsAll h S members doc) :
    Shows h S ((members.lookup "schema_version").getD (.atom (.int INITIAL_SCHEMA_VERSION)))
      (found_version doc) := by
  have hrel := hm.lookup "schema_version"
  rw [found_version]
  generalize members.lookup "schema_version" = found at hrel ⊢
  generalize doc.lookup "schema_version" = version at hrel ⊢
  cases hrel with
  | none => exact shows_atom.mpr ⟨rfl, rfl⟩
  | some hv => exact hv

theorem migrate_level_runs (room : Nat) :
    LevelRuns (migrate_graph_level room) (Wire.migrate_graph_level room) := by
  induction room with
  | zero => exact fun _ _ => ⟨_, rfl, Extends.refl _⟩
  | succ room ih =>
      intro h S g doc hS hdoc
      obtain ⟨_, hobj, -, members, hcell, hmembers⟩ := shows_ref.mp hdoc
      cases hobj
      have hcurrent := migrate_to_current_runs hS hdoc (shows_found_version hmembers)
      refine .silent (get_run hcell "schema_version") (hcurrent.bind fun h₁ a doc₁ ha => ?_)
      obtain ⟨members₁, hcell₁, hmembers₁⟩ := ha.cell
      refine .silent (get_run hcell₁ "nodes") ?_
      obtain ⟨b, nodes, hm, hd, hw⟩ | ⟨hm, hd⟩ := rel_dict (hmembers₁.lookup "nodes")
      · simp only [migrate_nodes, hm, hd]
        exact rebuild_nodes_runs ih hS ha hw
      · rw [migrate_nodes_of_not hd]
        have hsame : Agrees h ((pure a : Run Nat) h₁) (.ok doc₁) fun h' b doc' =>
            Extends h h' ∧ Shows h' (reached h S h') (.ref b) (.obj doc') :=
          ⟨a, h₁, rfl, ha.extends_, ha.shows⟩
        cases hfound : members₁.lookup "nodes" with
        | none => exact hsame
        | some w =>
            cases w with
            | atom value => exact hsame
            | ref b => exact absurd hfound (hm b)

end Runs

end EmergentFlow.Wire.Stored
