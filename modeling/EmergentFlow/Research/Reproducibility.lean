import EmergentFlow.Codegen.MaterializeLaw

/-!
# Research — Reproducibility

The record of what a run would need to be repeated (`capture_run` of
`research/reproducibility.py`): the seeds of the nodes, and a hash of every data
source. It walks the outermost nodes of the graph it is handed, with the values
that are stored there.

`digest` is the hash of a JSON document and `str` Python's text of an artifact
reference, which `json.dumps` falls back to.
-/

namespace EmergentFlow

variable {Sub : Type} {Hash : Type}

/-! ## Documents -/

mutual

/-- A value with the keys of its mappings in order, and `ref` for each artifact
reference. -/
def ParamValue.canonical (ref : String → Option String → ParamValue) : ParamValue → ParamValue
  | .artifact_ref uri media_type => ref uri media_type
  | .sequence items => .sequence (ParamValue.canonicalItems ref items)
  | .mapping items =>
      .mapping ((ParamValue.canonicalMembers ref items).insertionSort (·.1 ≤ ·.1))
  | value => value

def ParamValue.canonicalItems (ref : String → Option String → ParamValue) :
    List ParamValue → List ParamValue
  | [] => []
  | value :: rest => value.canonical ref :: ParamValue.canonicalItems ref rest

def ParamValue.canonicalMembers (ref : String → Option String → ParamValue) :
    List (String × ParamValue) → List (String × ParamValue)
  | [] => []
  | (key, value) :: rest => (key, value.canonical ref) :: ParamValue.canonicalMembers ref rest

end

/-- `json.dumps(value, sort_keys=True, default=str)`, as the value it writes. -/
def ParamValue.dumped (str : String → Option String → String) (value : ParamValue) : ParamValue :=
  value.canonical fun uri media_type => .str (str uri media_type)

/-- `{"type": node.type, "params": params_snapshot}`. -/
def Node.snapshot (node : Node Sub) : ParamValue :=
  .mapping [("type", .str node.type), ("params", .mapping node.param_values.entries)]

/-! ## The capture -/

/-- `SEED_PARAM_NAMES`. -/
def SEED_PARAM_NAMES : List String := ["seed", "random_state"]

/-- A number; a `bool` is none. -/
def ParamValue.is_number : ParamValue → Bool
  | .int _ | .float _ => true
  | _ => false

/-- A seed that is recorded. -/
def Param.is_seed (p : Param) : Bool := p.name ∈ SEED_PARAM_NAMES && p.value.is_number

/-- `node.type.startswith("data.")`. -/
def Node.is_source (node : Node Sub) : Bool := "data.".toList.isPrefixOf node.type.toList

/-- `ReproducibilityCapture`. -/
structure ReproducibilityCapture (Hash : Type) where
  seeds : Dict String ParamValue := Dict.empty
  content_hashes : Dict String Hash := Dict.empty
  dependency_versions : Dict String String := Dict.empty
  params : Dict String ParamValue := Dict.empty

section Capture

variable (digest : ParamValue → Hash) (str : String → Option String → String)

/-- `_content_hash`. -/
def content_hash (value : ParamValue) : Hash := digest (value.dumped str)

/-- One round of the loop. -/
def capture_node (g : Graph Sub) (c : ReproducibilityCapture Hash) (node_id : String) :
    ReproducibilityCapture Hash :=
  match g.nodes.get? node_id with
  | none => c
  | some node => { c with
      seeds := node.params.foldl
        (fun seeds p => if p.is_seed then seeds.set node_id p.value else seeds) c.seeds
      content_hashes := if node.is_source then
          c.content_hashes.set node_id (content_hash digest str node.snapshot)
        else c.content_hashes }

/-- `capture_run`. -/
def capture_run (g : Graph Sub) (dependency_versions : Option (Dict String String))
    (params : Option (Dict String ParamValue)) : ReproducibilityCapture Hash :=
  let c := (g.nodes.keys.insertionSort (· ≤ ·)).foldl (capture_node digest str g) {}
  { c with
    dependency_versions := dependency_versions.getD Dict.empty
    params := params.getD (g.params.mapValues fun _ param => param.value) }

end Capture

/-! ## What is recorded -/

/-- The seed stored last. -/
def Node.stored_seed (node : Node Sub) : Option ParamValue :=
  (node.params.reverse.find? (·.is_seed)).map (·.value)

section Recorded

variable {digest : ParamValue → Hash} {str : String → Option String → String} {g : Graph Sub}

theorem get?_seeds_foldl (params : List Param) (seeds : Dict String ParamValue) (k id : String) :
    (params.foldl (fun seeds p => if p.is_seed then seeds.set id p.value else seeds) seeds).get? k =
      if k = id then ((params.reverse.find? (·.is_seed)).map (·.value)).or (seeds.get? k)
      else seeds.get? k := by
  induction params using List.reverseRecOn with
  | nil => simp
  | append_singleton params p ih =>
      rw [List.foldl_append, List.foldl_cons, List.foldl_nil, List.reverse_append,
        List.reverse_singleton, List.singleton_append, List.find?_cons]
      cases hp : p.is_seed with
      | false => simp [ih]
      | true =>
          by_cases hk : k = id
          · subst hk
            simp [Dict.get?_set_self]
          · rw [if_pos rfl, Dict.get?_set_ne _ _ (Ne.symm hk), ih, if_neg hk, if_neg hk]

theorem get?_capture_node_self (c : ReproducibilityCapture Hash) (k : String) :
    (capture_node digest str g c k).seeds.get? k =
      ((g.nodes.get? k).bind Node.stored_seed).or (c.seeds.get? k) ∧
    (capture_node digest str g c k).content_hashes.get? k =
      (((g.nodes.get? k).filter (·.is_source)).map
        (content_hash digest str ·.snapshot)).or (c.content_hashes.get? k) := by
  rw [capture_node]
  cases g.nodes.get? k with
  | none => exact ⟨rfl, rfl⟩
  | some node =>
      constructor
      · rw [get?_seeds_foldl, if_pos rfl]
        rfl
      · cases hsource : node.is_source <;> simp [hsource, Option.filter]

variable (digest str g) in
theorem get?_capture_node_ne (c : ReproducibilityCapture Hash) {k id : String} (hk : k ≠ id) :
    (capture_node digest str g c id).seeds.get? k = c.seeds.get? k ∧
      (capture_node digest str g c id).content_hashes.get? k = c.content_hashes.get? k := by
  rw [capture_node]
  cases g.nodes.get? id with
  | none => exact ⟨rfl, rfl⟩
  | some node =>
      constructor
      · rw [get?_seeds_foldl, if_neg hk]
      · cases hsource : node.is_source with
        | false => simp [hsource]
        | true => simp [hsource, Dict.get?_set_ne _ _ (Ne.symm hk)]

/-- What a loop over ids records under one of them, if each is met once. -/
theorem get?_capture_foldl {ids : List String} (hnodup : ids.Nodup)
    (c : ReproducibilityCapture Hash) (k : String) :
    (ids.foldl (capture_node digest str g) c).seeds.get? k =
      (if k ∈ ids then (g.nodes.get? k).bind Node.stored_seed else none).or (c.seeds.get? k) ∧
    (ids.foldl (capture_node digest str g) c).content_hashes.get? k =
      (if k ∈ ids then ((g.nodes.get? k).filter (·.is_source)).map
        (content_hash digest str ·.snapshot) else none).or (c.content_hashes.get? k) := by
  induction ids generalizing c with
  | nil => simp
  | cons id ids ih =>
      obtain ⟨hid, hnodup⟩ := List.nodup_cons.mp hnodup
      obtain ⟨hseeds, hhashes⟩ := ih hnodup (capture_node digest str g c id)
      rw [List.foldl_cons, hseeds, hhashes]
      by_cases hk : k = id
      · subst hk
        rw [if_neg hid, if_neg hid, if_pos List.mem_cons_self, if_pos List.mem_cons_self]
        exact get?_capture_node_self c k
      · obtain ⟨hseed, hhash⟩ := get?_capture_node_ne digest str g c hk
        rw [hseed, hhash]
        simp only [List.mem_cons, hk, false_or, and_self]

theorem get?_seeds (g : Graph Sub) (dependency_versions : Option (Dict String String))
    (params : Option (Dict String ParamValue)) (id : String) :
    (capture_run digest str g dependency_versions params).seeds.get? id =
      (g.nodes.get? id).bind Node.stored_seed := by
  have hnodup := (List.perm_insertionSort (· ≤ ·) _).nodup_iff.mpr g.nodes.nodup_keys
  refine (get?_capture_foldl hnodup {} id).1.trans ?_
  simp only [List.mem_insertionSort]
  by_cases hid : id ∈ g.nodes.keys
  · rw [if_pos hid, Dict.get?_empty, Option.or_none]
  · rw [if_neg hid, (Dict.get?_eq_none_iff _).mpr hid]
    rfl

theorem get?_content_hashes (g : Graph Sub) (dependency_versions : Option (Dict String String))
    (params : Option (Dict String ParamValue)) (id : String) :
    (capture_run digest str g dependency_versions params).content_hashes.get? id =
      ((g.nodes.get? id).filter (·.is_source)).map (content_hash digest str ·.snapshot) := by
  have hnodup := (List.perm_insertionSort (· ≤ ·) _).nodup_iff.mpr g.nodes.nodup_keys
  refine (get?_capture_foldl hnodup {} id).2.trans ?_
  simp only [List.mem_insertionSort]
  by_cases hid : id ∈ g.nodes.keys
  · rw [if_pos hid, Dict.get?_empty, Option.or_none]
  · rw [if_neg hid, (Dict.get?_eq_none_iff _).mpr hid]
    rfl

end Recorded

end EmergentFlow
