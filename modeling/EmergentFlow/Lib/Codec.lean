import EmergentFlow.Lib.Dict
import EmergentFlow.Lib.Json

/-!
# Codec — data written as JSON and read back

A codec writes values as JSON documents and reads documents back. What is
read is valid; a valid value comes back as it was, if it is one that the
format can express. Both laws are fields, so a codec that is put together
from others has them by construction.
-/

universe u

/-- How values of a type are written and read. -/
structure Codec (α : Type u) where
  /-- What every value that is read satisfies. -/
  valid : α → Prop
  /-- The values that the format expresses. -/
  expressible : α → Prop
  encode : α → Json
  decode : Json → Option α
  sound : ∀ {j a}, decode j = some a → valid a
  complete : ∀ {a}, valid a → expressible a → decode (encode a) = some a

namespace Codec

variable {α : Type u}

/-! ## Scalars -/

def str : Codec String where
  valid := fun _ => True
  expressible := fun _ => True
  encode := .str
  decode := Json.str?
  sound := fun _ => trivial
  complete := fun _ _ => rfl

/-- A constant text. -/
def literal (s : String) : Codec PUnit where
  valid := fun _ => True
  expressible := fun _ => True
  encode := fun _ => .str s
  decode := fun j => if j.str? = some s then some .unit else none
  sound := fun _ => trivial
  complete := fun _ _ => if_pos rfl

/-- Values that the reader may also take from other documents. -/
def coerced (expressible : α → Prop) (encode : α → Json) (decode : Json → Option α)
    (h : ∀ a, expressible a → decode (encode a) = some a) : Codec α where
  valid := fun _ => True
  expressible := expressible
  encode := encode
  decode := decode
  sound := fun _ => trivial
  complete := fun {a} _ hexp => h a hexp

/-- Only the values that satisfy `p`. -/
def refine (c : Codec α) (p : α → Bool) : Codec α where
  valid := fun a => c.valid a ∧ p a = true
  expressible := c.expressible
  encode := c.encode
  decode := fun j => (c.decode j).filter p
  sound := fun {j a} h => by
    rw [Option.filter_eq_some_iff] at h
    exact ⟨c.sound h.1, h.2⟩
  complete := fun {a} h hexp => by rw [c.complete h.1 hexp, Option.filter_some_pos h.2]

/-- A value or nothing, which is written as `null`. -/
def nullable (c : Codec α) : Codec (Option α) where
  valid := fun o => ∀ a ∈ o, c.valid a
  expressible := fun o => ∀ a ∈ o, c.expressible a ∧ c.encode a ≠ .null
  encode := fun o => (o.map c.encode).getD .null
  decode := fun j =>
    match j with
    | .null => some none
    | j => (c.decode j).map some
  sound := fun {j o} hread a ha => by
    cases ha
    have hdecode : ∃ j, c.decode j = some a := by
      cases j <;> simp at hread <;> exact ⟨_, hread⟩
    obtain ⟨j, hj⟩ := hdecode
    exact c.sound hj
  complete := fun {o} hvalid hexp => by
    cases o with
    | none => rfl
    | some a =>
        obtain ⟨hexpressible, hnull⟩ := hexp a rfl
        have hback := c.complete (hvalid a rfl) hexpressible
        simp only [Option.map_some, Option.getD_some]
        rw [hback, Option.map_some]

theorem nullable_eq_some {c : Codec α} {j : Json} {a : α}
    (h : c.nullable.decode j = some (some a)) : c.decode j = some a := by
  cases j <;> simp [nullable] at h <;> exact h

/-- One of finitely many names. -/
def enum [DecidableEq α] (name : α → String) (values : List α) (h : (values.map name).Nodup)
    (hall : ∀ a, a ∈ values) : Codec α where
  valid := fun _ => True
  expressible := fun _ => True
  encode := fun a => .str (name a)
  decode := fun j => j.str?.bind fun s => values.find? (name · = s)
  sound := fun _ => trivial
  complete := fun {a} _ _ => by
    simp only [Json.str?, Option.bind_some]
    obtain ⟨b, hb⟩ : ∃ b, values.find? (name · = name a) = some b := by
      rw [← Option.isSome_iff_exists, List.find?_isSome]
      exact ⟨a, hall a, by simp⟩
    have hname : name b = name a := by simpa using List.find?_some hb
    rw [hb, List.inj_on_of_nodup_map h (List.mem_of_find?_eq_some hb) (hall a) hname]

/-- The same documents for another type; `make` and `of` are inverse. -/
def iso {β : Type u} (c : Codec α) (make : α → β) (of : β → α) (hmake : ∀ b, make (of b) = b)
    (hof : ∀ a, of (make a) = a) : Codec β where
  valid := fun b => c.valid (of b)
  expressible := fun b => c.expressible (of b)
  encode := fun b => c.encode (of b)
  decode := fun j => (c.decode j).map make
  sound := fun {j b} h => by
    obtain ⟨a, ha, rfl⟩ := Option.map_eq_some_iff.mp h
    rw [hof]
    exact c.sound ha
  complete := fun {b} hvalid hexp => by rw [c.complete hvalid hexp, Option.map_some, hmake]

theorem iso_eq_some {β : Type u} {c : Codec α} {make : α → β} {of : β → α} {hmake} {hof} {j : Json}
    {b : β} (h : (c.iso make of hmake hof).decode j = some b) : c.decode j = some (of b) := by
  obtain ⟨a, ha, rfl⟩ := Option.map_eq_some_iff.mp h
  rw [ha, hof]

theorem refine_eq_some {c : Codec α} {p : α → Bool} {j : Json} {a : α}
    (h : (c.refine p).decode j = some a) : c.decode j = some a :=
  (Option.filter_eq_some_iff.mp h).1

/-- The codec with its two predicates put in other words. -/
def reword (c : Codec α) (valid expressible : α → Prop) (hvalid : ∀ a, c.valid a ↔ valid a)
    (hexp : ∀ a, valid a → expressible a → c.expressible a) : Codec α where
  valid := valid
  expressible := expressible
  encode := c.encode
  decode := c.decode
  sound := fun h => (hvalid _).mp (c.sound h)
  complete := fun {a} ha hea => c.complete ((hvalid a).mpr ha) (hexp a ha hea)

theorem reword_eq_some {c : Codec α} {valid expressible : α → Prop} {hvalid} {hexp} {j : Json}
    {a : α} (h : (c.reword valid expressible hvalid hexp).decode j = some a) :
    c.decode j = some a := h

section Simp

@[simp] theorem valid_str (s : String) : str.valid s := trivial

@[simp] theorem expressible_str (s : String) : str.expressible s := trivial

@[simp] theorem valid_literal (s : String) (a : PUnit) : (literal s).valid a := trivial

@[simp] theorem expressible_literal (s : String) (a : PUnit) : (literal s).expressible a :=
  trivial

@[simp] theorem valid_coerced {expressible : α → Prop} {encode : α → Json}
    {decode : Json → Option α} (h) (a : α) : (coerced expressible encode decode h).valid a :=
  trivial

@[simp] theorem valid_enum [DecidableEq α] (name : α → String) (values : List α) (h) (hall)
    (a : α) : (enum name values h hall).valid a := trivial

@[simp] theorem expressible_enum [DecidableEq α] (name : α → String) (values : List α) (h) (hall)
    (a : α) : (enum name values h hall).expressible a := trivial

@[simp] theorem valid_refine (c : Codec α) (p : α → Bool) (a : α) :
    (c.refine p).valid a ↔ c.valid a ∧ p a = true := Iff.rfl

@[simp] theorem expressible_refine (c : Codec α) (p : α → Bool) (a : α) :
    (c.refine p).expressible a ↔ c.expressible a := Iff.rfl

@[simp] theorem valid_nullable (c : Codec α) (o : Option α) :
    c.nullable.valid o ↔ ∀ a ∈ o, c.valid a := Iff.rfl

@[simp] theorem valid_iso {β : Type u} (c : Codec α) (make : α → β) (of : β → α) (h) (h')
    (b : β) : (c.iso make of h h').valid b ↔ c.valid (of b) := Iff.rfl

@[simp] theorem expressible_iso {β : Type u} (c : Codec α) (make : α → β) (of : β → α) (h) (h')
    (b : β) : (c.iso make of h h').expressible b ↔ c.expressible (of b) := Iff.rfl

theorem valid_nullable_none (c : Codec α) : c.nullable.valid none := nofun

@[simp] theorem expressible_nullable (c : Codec α) (o : Option α) :
    c.nullable.expressible o ↔ ∀ a ∈ o, c.expressible a ∧ c.encode a ≠ .null := Iff.rfl

end Simp

/-! ## Lists -/

/-- Read the items of a list one after another; `f` is told the place. -/
def readItems (f : Nat → Json → Option α) : Nat → List Json → Option (List α)
  | _, [] => some []
  | i, j :: rest => do
      let a ← f i j
      let as ← readItems f (i + 1) rest
      return a :: as

theorem readItems_valid {c : Nat → Codec α} {p : α → Prop} (hp : ∀ i a, (c i).valid a → p a)
    {i : Nat} {items : List Json} {as : List α}
    (h : readItems (fun i => (c i).decode) i items = some as) : ∀ a ∈ as, p a := by
  induction items generalizing i as with
  | nil =>
      cases h
      exact nofun
  | cons j rest ih =>
      simp only [readItems, Option.bind_eq_bind, Option.bind_eq_some_iff] at h
      obtain ⟨a, ha, rest', hrest, heq⟩ := h
      cases heq
      intro b hb
      rcases List.mem_cons.mp hb with rfl | hb
      · exact hp i b ((c i).sound ha)
      · exact ih hrest b hb

theorem readItems_map {f : Nat → Json → Option α} {encode : α → Json} {as : List α}
    (h : ∀ i, ∀ a ∈ as, f i (encode a) = some a) (i : Nat) :
    readItems f i (as.map encode) = some as := by
  induction as generalizing i with
  | nil => rfl
  | cons a rest ih =>
      rw [List.map_cons, readItems, h i a List.mem_cons_self,
        ih fun i b hb => h i b (List.mem_cons_of_mem _ hb)]
      rfl

/-- A list whose items are read by their place and written all alike. -/
def list (c : Nat → Codec α) (encode : α → Json) (hencode : ∀ i, (c i).encode = encode)
    (valid expressible : α → Prop) (hvalid : ∀ i, (c i).valid = valid)
    (hexpressible : ∀ i, (c i).expressible = expressible) : Codec (List α) where
  valid := fun as => ∀ a ∈ as, valid a
  expressible := fun as => ∀ a ∈ as, expressible a
  encode := fun as => .arr (as.map encode)
  decode := fun j =>
    match j with
    | .arr items => readItems (fun i => (c i).decode) 0 items
    | _ => none
  sound := fun {j as} h => by
    cases j with
    | arr items => exact readItems_valid (fun i a ha => hvalid i ▸ ha) h
    | _ => cases h
  complete := fun {as} has hexp => readItems_map (fun i a ha => by
    rw [← hencode i]
    exact (c i).complete (hvalid i ▸ has a ha) (hexpressible i ▸ hexp a ha)) 0

/-! ## Dictionaries -/

/-- Read the members of an object one after another; `f` is told the key. -/
def readMembers (f : String → Json → Option α) : List (String × Json) → Option (List (String × α))
  | [] => some []
  | (key, j) :: rest => do
      let a ← f key j
      let as ← readMembers f rest
      return (key, a) :: as

theorem readMembers_mem {f : String → Json → Option α} {members : List (String × Json)}
    {as : List (String × α)} (h : readMembers f members = some as) {key : String} {a : α}
    (ha : (key, a) ∈ as) : ∃ j, (key, j) ∈ members ∧ f key j = some a := by
  induction members generalizing as with
  | nil =>
      cases h
      cases ha
  | cons m rest ih =>
      obtain ⟨k, j⟩ := m
      simp only [readMembers, Option.bind_eq_bind, Option.bind_eq_some_iff] at h
      obtain ⟨b, hb, rest', hrest, heq⟩ := h
      cases heq
      rcases List.mem_cons.mp ha with heq | ha
      · cases heq
        exact ⟨j, List.mem_cons_self, hb⟩
      · obtain ⟨j', hj', hf⟩ := ih hrest ha
        exact ⟨j', List.mem_cons_of_mem _ hj', hf⟩

theorem readMembers_map (f : String → Json → Option α) (encode : String → α → Json)
    {as : List (String × α)} (h : ∀ m ∈ as, f m.1 (encode m.1 m.2) = some m.2) :
    readMembers f (as.map fun m => (m.1, encode m.1 m.2)) = some as := by
  induction as with
  | nil => rfl
  | cons m rest ih =>
      rw [List.map_cons, readMembers, h m List.mem_cons_self,
        ih fun m' hm' => h m' (List.mem_cons_of_mem _ hm')]
      rfl

/-- A dictionary whose values are read and written by their key. -/
def dict (c : String → Codec α) : Codec (Dict String α) where
  valid := fun d => ∀ key a, d.get? key = some a → (c key).valid a
  expressible := fun d => ∀ key a, d.get? key = some a → (c key).expressible a
  encode := fun d => .obj (d.entries.map fun m => (m.1, (c m.1).encode m.2))
  decode := fun j =>
    match j with
    | .obj members => (readMembers (fun key => (c key).decode) members).map Dict.ofList
    | _ => none
  sound := fun {j d} h key a ha => by
    cases j with
    | obj members =>
        obtain ⟨as, has, rfl⟩ := Option.map_eq_some_iff.mp h
        obtain ⟨j, -, hj⟩ := readMembers_mem has (Dict.mem_of_get?_ofList ha)
        exact (c key).sound hj
    | _ => cases h
  complete := fun {d} hvalid hexp => by
    have hread := readMembers_map (fun key => (c key).decode) (fun key => (c key).encode)
      fun m (hm : m ∈ d.entries) =>
        (c m.1).complete (hvalid _ _ (d.mem_entries_iff.mp hm)) (hexp _ _ (d.mem_entries_iff.mp hm))
    simp only [hread, Option.map_some, Option.some.injEq]
    exact Dict.ext_entries (Dict.entries_ofList d.nodup)

/-! ## Records -/

/-- A member of an object; `default` where it may be absent. -/
def member (members : List (String × Json)) (key : String) (default : Option α)
    (decode : Json → Option α) : Option α :=
  match members.lookup key with
  | none => default
  | some j => decode j

theorem member_eq_some {members : List (String × Json)} {key : String} {default : Option α}
    {decode : Json → Option α} {a : α} (h : member members key default decode = some a) :
    default = some a ∨ ∃ j, members.lookup key = some j ∧ decode j = some a := by
  rw [member] at h
  split at h
  · exact .inl h
  · exact .inr ⟨_, by assumption, h⟩

/-- The members of an object that has no other keys than `keys`. -/
def closed (keys : List String) : Json → Option (List (String × Json))
  | .obj members => if members.all (fun m => m.1 ∈ keys) then some members else none
  | _ => none

theorem closed_eq_some {keys : List String} {j : Json} {members : List (String × Json)}
    (h : closed keys j = some members) : j = .obj members := by
  cases j with
  | obj ms =>
      rw [closed] at h
      split at h
      · rw [Option.some.inj h]
      · cases h
  | _ => cases h

/-- What stands under a key was read from a member of that key. -/
theorem dict_eq_some {c : String → Codec α} {j : Json} {d : Dict String α}
    (h : (dict c).decode j = some d) {key : String} {a : α} (ha : d.get? key = some a) :
    ∃ members j', j = .obj members ∧ (key, j') ∈ members ∧ (c key).decode j' = some a := by
  cases j with
  | obj members =>
      obtain ⟨as, has, rfl⟩ := Option.map_eq_some_iff.mp h
      obtain ⟨j', hmem, hj'⟩ := readMembers_mem has (Dict.mem_of_get?_ofList ha)
      exact ⟨members, j', rfl, hmem, hj'⟩
  | _ => cases h

section Simp

@[simp] theorem valid_list (c : Nat → Codec α) (encode : α → Json) (hencode)
    (valid expressible : α → Prop) (hvalid) (hexp) (as : List α) :
    (list c encode hencode valid expressible hvalid hexp).valid as ↔ ∀ a ∈ as, valid a := Iff.rfl

@[simp] theorem expressible_list (c : Nat → Codec α) (encode : α → Json) (hencode)
    (valid expressible : α → Prop) (hvalid) (hexp) (as : List α) :
    (list c encode hencode valid expressible hvalid hexp).expressible as ↔
      ∀ a ∈ as, expressible a := Iff.rfl

@[simp] theorem valid_dict (c : String → Codec α) (d : Dict String α) :
    (dict c).valid d ↔ ∀ key a, d.get? key = some a → (c key).valid a := Iff.rfl

theorem valid_dict_empty (c : String → Codec α) : (dict c).valid Dict.empty := nofun

@[simp] theorem expressible_dict (c : String → Codec α) (d : Dict String α) :
    (dict c).expressible d ↔ ∀ key a, d.get? key = some a → (c key).expressible a := Iff.rfl

end Simp

end Codec

/-- How the fields of a record are written as members of an object, in
order, and read from them by their keys. -/
structure Fields (α : Type u) where
  keys : List String
  valid : α → Prop
  expressible : α → Prop
  encode : α → List (String × Json)
  decode : List (String × Json) → Option α
  keys_encode : ∀ a, (encode a).map Prod.fst = keys
  congr : ∀ {m m'}, (∀ key ∈ keys, m.lookup key = m'.lookup key) → decode m = decode m'
  sound : ∀ {m a}, decode m = some a → valid a
  complete : ∀ {a}, keys.Nodup → valid a → expressible a → decode (encode a) = some a

namespace Fields

variable {α β : Type u}

/-- No more fields. -/
def nil : Fields PUnit where
  keys := []
  valid := fun _ => True
  expressible := fun _ => True
  encode := fun _ => []
  decode := fun _ => some .unit
  keys_encode := fun _ => rfl
  congr := fun _ => rfl
  sound := fun _ => trivial
  complete := fun _ _ _ => rfl

/-- One more field in front. -/
def cons (key : String) (default : Option α) (c : Codec α) (h : ∀ a ∈ default, c.valid a)
    (rest : Fields β) : Fields (α × β) where
  keys := key :: rest.keys
  valid := fun r => c.valid r.1 ∧ rest.valid r.2
  expressible := fun r => c.expressible r.1 ∧ rest.expressible r.2
  encode := fun r => (key, c.encode r.1) :: rest.encode r.2
  decode := fun m => do
    let a ← Codec.member m key default c.decode
    let b ← rest.decode m
    return (a, b)
  keys_encode := fun r => by rw [List.map_cons, rest.keys_encode]
  congr := fun {m m'} heq => by
    have hrest := rest.congr fun k hk => heq k (List.mem_cons_of_mem _ hk)
    simp only [Codec.member, heq key List.mem_cons_self, hrest]
  sound := fun {m r} hread => by
    simp only [Option.bind_eq_bind, Option.bind_eq_some_iff] at hread
    obtain ⟨a, ha, b, hb, heq⟩ := hread
    cases heq
    rcases Codec.member_eq_some ha with hd | ⟨j, -, hj⟩
    · exact ⟨h a hd, rest.sound hb⟩
    · exact ⟨c.sound hj, rest.sound hb⟩
  complete := fun {r} hnodup hvalid hexp => by
    rw [List.nodup_cons] at hnodup
    have hrest : rest.decode ((key, c.encode r.1) :: rest.encode r.2) = some r.2 := by
      rw [← rest.complete hnodup.2 hvalid.2 hexp.2]
      refine rest.congr fun k hk => ?_
      have hne : (k == key) = false := by
        rw [beq_eq_false_iff_ne]
        rintro rfl
        exact hnodup.1 hk
      rw [List.lookup_cons, hne]
    have hfield : Codec.member ((key, c.encode r.1) :: rest.encode r.2) key default c.decode
        = some r.1 := by
      simp only [Codec.member, List.lookup_cons_self, c.complete hvalid.1 hexp.1]
    rw [hfield, hrest]
    rfl

/-- A field that has to be there. -/
def required (key : String) (c : Codec α) (rest : Fields β) : Fields (α × β) :=
  cons key none c nofun rest

/-- A field with a default. -/
def optional (key : String) (default : α) (c : Codec α) (h : c.valid default) (rest : Fields β) :
    Fields (α × β) :=
  cons key (some default) c (fun _ ha => Option.some.inj ha ▸ h) rest

theorem cons_eq_some (key : String) (default : Option α) (c : Codec α) (h) (rest : Fields β)
    (m : List (String × Json)) (r : α × β) : (cons key default c h rest).decode m = some r ↔
      Codec.member m key default c.decode = some r.1 ∧ rest.decode m = some r.2 := by
  simp only [cons, Option.bind_eq_bind, Option.bind_eq_some_iff]
  constructor
  · rintro ⟨a, ha, b, hb, heq⟩
    cases heq
    exact ⟨ha, hb⟩
  · rintro ⟨ha, hb⟩
    exact ⟨r.1, ha, r.2, hb, rfl⟩

section Simp

variable (key : String) (default : α) (c : Codec α) (h : c.valid default) (rest : Fields β)
  (r : α × β)

@[simp] theorem keys_nil : nil.keys = [] := rfl

@[simp] theorem keys_required : (required key c rest).keys = key :: rest.keys := rfl

@[simp] theorem keys_optional : (optional key default c h rest).keys = key :: rest.keys := rfl

theorem required_eq_some (m : List (String × Json)) :
    (required key c rest).decode m = some r ↔
      Codec.member m key none c.decode = some r.1 ∧ rest.decode m = some r.2 :=
  cons_eq_some ..

theorem optional_eq_some (m : List (String × Json)) :
    (optional key default c h rest).decode m = some r ↔
      Codec.member m key (some default) c.decode = some r.1 ∧ rest.decode m = some r.2 :=
  cons_eq_some ..

@[simp] theorem valid_nil (r : PUnit) : nil.valid r := trivial

@[simp] theorem valid_required :
    (required key c rest).valid r ↔ c.valid r.1 ∧ rest.valid r.2 := Iff.rfl

@[simp] theorem valid_optional :
    (optional key default c h rest).valid r ↔ c.valid r.1 ∧ rest.valid r.2 := Iff.rfl

@[simp] theorem expressible_nil (r : PUnit) : nil.expressible r := trivial

@[simp] theorem expressible_required : (required key c rest).expressible r ↔
    c.expressible r.1 ∧ rest.expressible r.2 := Iff.rfl

@[simp] theorem expressible_optional : (optional key default c h rest).expressible r ↔
    c.expressible r.1 ∧ rest.expressible r.2 := Iff.rfl

end Simp

/-- The record as an object that has no other members. -/
def object (f : Fields α) (h : f.keys.Nodup) : Codec α where
  valid := f.valid
  expressible := f.expressible
  encode := fun a => .obj (f.encode a)
  decode := fun j => (Codec.closed f.keys j).bind f.decode
  sound := fun {j a} hread => by
    obtain ⟨members, -, hmembers⟩ := Option.bind_eq_some_iff.mp hread
    exact f.sound hmembers
  complete := fun {a} hvalid hexp => by
    have hkeys : (f.encode a).all (fun m => m.1 ∈ f.keys) = true := by
      rw [List.all_eq_true]
      intro m hm
      rw [decide_eq_true_eq, ← f.keys_encode a]
      exact List.mem_map_of_mem hm
    rw [Codec.closed, if_pos hkeys, Option.bind_some, f.complete h hvalid hexp]

theorem object_eq_some {f : Fields α} {h : f.keys.Nodup} {j : Json} {a : α}
    (hread : (f.object h).decode j = some a) : ∃ members, j = .obj members ∧
      f.decode members = some a := by
  obtain ⟨members, hmembers, hread⟩ := Option.bind_eq_some_iff.mp hread
  exact ⟨members, Codec.closed_eq_some hmembers, hread⟩

@[simp] theorem valid_object (f : Fields α) (h : f.keys.Nodup) (a : α) :
    (f.object h).valid a ↔ f.valid a := Iff.rfl

@[simp] theorem expressible_object (f : Fields α) (h : f.keys.Nodup) (a : α) :
    (f.object h).expressible a ↔ f.expressible a := Iff.rfl

end Fields
