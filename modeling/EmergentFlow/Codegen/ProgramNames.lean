import EmergentFlow.Codegen.NamingLaws
import EmergentFlow.Codegen.Program
import EmergentFlow.Lib.Decimal

/-!
# Codegen — ProgramNames

The names in a program keep apart: the variables of OUT ports, the keywords of
`main`, the parameters and the name of the function of a composite. And the texts
of a binding context are read for what they were written for.
-/

namespace EmergentFlow.Program

open Naming Scopes

variable {Sub V C ε : Type}

/-! ## Texts -/

theorem mem_name {name : String} (h : is_identifier name = true) {c : Char}
    (hc : c ∈ name.toList) : is_name_char c = true := by
  simp only [is_identifier, Bool.and_eq_true] at h
  exact List.all_eq_true.mp h.2 c hc

theorem read_var {none_value : V} {name : String} (h : name ≠ "None")
    (hbracket : '[' ∉ name.toList) : read_expr none_value name = .var name := by
  rw [read_expr]
  split
  · rename_i rest heq
    rw [heq] at hbracket
    exact absurd List.mem_cons_self hbracket
  · rw [if_neg h]

theorem read_identifier (none_value : V) {name : String} (h : is_identifier name = true) :
    read_expr none_value name = .var name := by
  have hchar : ∀ c ∈ name.toList, is_name_char c = true := fun c hc => mem_name h hc
  apply read_var
  · rintro rfl
    exact absurd (hchar 'N' (by decide)) (by decide)
  · intro hmem
    exact absurd (hchar _ hmem) (by decide)

theorem read_none (none_value : V) : read_expr none_value "None" = .const none_value := by
  rw [read_expr]
  split
  · rename_i heq
    cases heq
  · rw [if_pos rfl]

theorem split_intercalate {pieces : List (List Char)} (h : ∀ piece ∈ pieces, ',' ∉ piece)
    (hne : pieces ≠ []) :
    Split.split [',', ' '] (List.cons_ne_nil _ _) ([',', ' '].intercalate pieces) = pieces := by
  induction pieces with
  | nil => exact absurd rfl hne
  | cons piece pieces ih =>
      have hpiece := h piece List.mem_cons_self
      cases pieces with
      | nil =>
          rw [List.intercalate_singleton]
          refine Split.split_of_absent _ fun hsub => hpiece (hsub.subset List.mem_cons_self)
      | cons second pieces =>
          rw [List.intercalate_cons_cons, List.append_assoc, Split.split_piece]
          · rw [ih (fun p hp => h p (List.mem_cons_of_mem _ hp)) (List.cons_ne_nil _ _)]
          · rintro c hc rfl
            exact hpiece hc

/-- A list of identifiers is read as that list. -/
theorem read_list (none_value : V) {names : List String}
    (h : ∀ name ∈ names, is_identifier name = true) :
    read_expr none_value (list_literal names) = .list names := by
  have htext : (list_literal names).toList =
      '[' :: ([',', ' '].intercalate (names.map String.toList) ++ [']']) := by
    rw [list_literal, String.toList_append, String.toList_append, String.toList_intercalate]
    rfl
  rw [read_expr, htext]
  show Expr.list (read_names _) = _
  rw [read_names]
  cases names with
  | nil => rfl
  | cons name names =>
      have hcomma : ∀ piece ∈ (name :: names).map String.toList, ',' ∉ piece := by
        intro piece hpiece hmem
        obtain ⟨name', hname', rfl⟩ := List.mem_map.mp hpiece
        exact absurd (mem_name (h name' hname') hmem) (by decide)
      have hsplit := split_intercalate hcomma (by simp)
      have hne : [',', ' '].intercalate ((name :: names).map String.toList) ++ [']'] ≠ [']'] := by
        intro heq
        have hnil : [',', ' '].intercalate ((name :: names).map String.toList) = [] :=
          List.append_cancel_right heq
        rw [hnil, Split.split_nil, List.map_cons] at hsplit
        have hempty : name = "" := String.toList_injective (List.head_eq_of_cons_eq hsplit).symm
        exact absurd (h name List.mem_cons_self) (by rw [hempty]; decide)
      rw [if_neg hne, List.dropLast_concat, hsplit, List.map_map]
      exact congrArg Expr.list (List.map_id'' (fun _ => String.ofList_toList) _)

/-! ## Names that are not those of functions -/

/-- The name does not begin as those of the functions of composites do. -/
def Led (name : String) : Prop :=
  ∃ c rest, name.toList = c :: rest ∧ (c = '_' → ∃ d rest', rest = d :: rest' ∧ d ≠ 'c')

theorem Led.append {a : String} (h : Led a) (b : String) : Led (a ++ b) := by
  obtain ⟨c, rest, hlist, hc⟩ := h
  refine ⟨c, rest ++ b.toList, by rw [String.toList_append, hlist]; rfl, fun hunder => ?_⟩
  obtain ⟨d, rest', hrest, hd⟩ := hc hunder
  exact ⟨d, rest' ++ b.toList, by rw [hrest]; rfl, hd⟩

theorem Led.ne_fn_name {name : String} (h : Led name) (nfkd : String → String) (node : Node Sub) :
    name ≠ fn_name nfkd node := by
  rintro rfl
  obtain ⟨c, rest, hlist, hc⟩ := h
  rw [fn_name, String.toList_append] at hlist
  obtain ⟨rfl, rfl⟩ := List.cons.inj hlist
  obtain ⟨d, rest', hrest, hd⟩ := hc rfl
  exact hd (List.head_eq_of_cons_eq hrest).symm

theorem slugify_head {nfkd : String → String} {text : String} {c : Char} {rest : List Char}
    (h : (Naming.slugify nfkd text).toList = c :: rest) : c ≠ '_' := by
  rw [Naming.slugify, String.toList_ofList] at h
  generalize underscored false (((nfkd text).toList.filter fun c => c.toNat < 128).map
    Char.toLower) = chars at h
  have hprefix := List.rdropWhile_prefix (fun x => decide (x = '_'))
    (chars.dropWhile (· = '_'))
  rw [h] at hprefix
  obtain ⟨tail, htail⟩ := hprefix
  have hhead := List.head?_dropWhile_not (fun x => decide (x = '_')) chars
  rw [← htail] at hhead
  simpa using hhead

theorem led_sanitize {nfkd : String → String} {text : String}
    (h : Naming.slugify nfkd text ≠ "") :
    Led (sanitize_identifier (Naming.slugify nfkd text)) := by
  obtain ⟨c, rest, hlist⟩ := List.exists_cons_of_ne_nil fun hnil =>
    h (String.toList_injective hnil)
  have hc := slugify_head hlist
  have hprefixed : Led (if starts_with_digit (Naming.slugify nfkd text)
      then "_" ++ Naming.slugify nfkd text else Naming.slugify nfkd text) := by
    cases hdigit : starts_with_digit (Naming.slugify nfkd text) with
    | false => exact ⟨c, rest, hlist, fun hunder => absurd hunder hc⟩
    | true =>
        refine ⟨'_', c :: rest, by simp [String.toList_append, hlist], fun _ => ?_⟩
        refine ⟨c, rest, rfl, ?_⟩
        rintro rfl
        rw [starts_with_digit, hlist] at hdigit
        have hdigit : (decide ('0' ≤ 'c') && decide ('c' ≤ '9')) = true := hdigit
        exact absurd hdigit (by decide)
  rw [sanitize_identifier, if_neg h]
  generalize (if starts_with_digit (Naming.slugify nfkd text)
      then "_" ++ Naming.slugify nfkd text else Naming.slugify nfkd text) = prefixed at hprefixed ⊢
  show Led (if shadows prefixed then prefixed ++ "_" else prefixed)
  split
  · exact hprefixed.append _
  · exact hprefixed

theorem led_identifier_or (nfkd : String → String) (text : String) {fallback : String}
    (h : Led fallback) : Led (identifier_or nfkd text fallback) := by
  rw [identifier_or]
  by_cases hslug : Naming.slugify nfkd text = ""
  · rw [hslug]
    exact h
  · have hname := led_sanitize hslug
    have hne : sanitize_identifier (Naming.slugify nfkd text) ≠ "" := by
      intro hempty
      obtain ⟨c, rest, hlist, -⟩ := hname
      rw [hempty] at hlist
      cases hlist
    simp only [if_neg hne]
    exact hname

theorem led_base_name (nfkd : String → String) (node : Node Sub) :
    Led (base_name nfkd node) := by
  have htype : Led (identifier_or nfkd node.type "node") :=
    led_identifier_or nfkd node.type ⟨'n', ['o', 'd', 'e'], rfl, fun h => absurd h (by decide)⟩
  have hchoose : ∀ base, base = "" ∨ Led base →
      Led (if base = "" then identifier_or nfkd node.type "node" else base) := by
    intro base hbase
    by_cases hempty : base = ""
    · rw [if_pos hempty]
      exact htype
    · rw [if_neg hempty]
      exact hbase.resolve_left hempty
  apply hchoose
  by_cases hlabel : String.ofList (py_strip (node.label.getD "").toList) = ""
  · rw [if_pos hlabel]
    exact .inl rfl
  · rw [if_neg hlabel]
    by_cases hslug : Naming.slugify nfkd (String.ofList (py_strip (node.label.getD "").toList)) = ""
    · rw [hslug]
      exact .inl rfl
    · exact .inr (led_sanitize hslug)

/-! ## The variables of a graph -/

/-- What is promised about the variables of the OUT ports of a graph. -/
structure Named (g : Graph Sub) (reserved : List String) (name_map : List OutBinding) : Prop where
  named : ∀ {id node}, g.nodes.get? id = some node → ∀ port ∈ node.out_ports,
    ∃ name, var_for name_map ⟨node.id, port.id⟩ = some name
  port : ∀ {ref name}, var_for name_map ref = some name → ∃ id node, g.nodes.get? id = some node ∧
    ∃ port ∈ node.out_ports, ref = ⟨node.id, port.id⟩
  identifier : ∀ {ref name}, var_for name_map ref = some name → is_identifier name = true
  underscore : ∀ {ref name}, var_for name_map ref = some name → '_' ∈ name.toList
  led : ∀ {ref name}, var_for name_map ref = some name → Led name
  unreserved : ∀ {ref name}, var_for name_map ref = some name → name ∉ reserved
  distinct : ∀ {ref ref' name}, var_for name_map ref = some name →
    var_for name_map ref' = some name → ref = ref'

theorem mem_of_var_for {name_map : List OutBinding} {ref : PortRef} {name : String}
    (h : var_for name_map ref = some name) :
    ∃ b ∈ name_map, (⟨b.node_id, b.port_id⟩ : PortRef) = ref ∧ b.var_name = name := by
  obtain ⟨b, hb, heq⟩ := List.mem_map.mp (Dict.mem_of_get?_ofList h)
  obtain ⟨rfl, rfl⟩ := Prod.mk.inj heq
  exact ⟨b, hb, rfl, rfl⟩

theorem named_of_apart {nfkd : String → String} {blake2s : Blake2s} {g : Graph Sub}
    {reserved : List String} (h : SuffixesApart blake2s (port_entries nfkd g) reserved) :
    Named g reserved (build_name_map nfkd blake2s g reserved) := by
  have hsafe := (name_map_safe_iff nfkd blake2s g reserved).mpr h
  -- a variable is a candidate, with or without a suffix
  have hentry : ∀ {ref name}, var_for (build_name_map nfkd blake2s g reserved) ref = some name →
      ∃ e ∈ port_entries nfkd g, name = e.candidate ∨
        name = suffixed blake2s (suffix_length blake2s (port_entries nfkd g) reserved) e := by
    intro ref name hname
    obtain ⟨b, hb, -, rfl⟩ := mem_of_var_for hname
    obtain ⟨e, he, rfl⟩ := List.mem_map.mp hb
    refine ⟨e, he, ?_⟩
    show var_name blake2s _ reserved e = _ ∨ var_name blake2s _ reserved e = _
    cases hc : collides (port_entries nfkd g) reserved e with
    | true => exact .inr (var_name_of_collides hc)
    | false => exact .inl (var_name_of_not_collides hc)
  constructor
  · intro id node hnode port hport
    refine Dict.get?_ofList_of_mem ?_
    rw [build_name_map, List.map_map, List.map_map]
    refine List.mem_map.mpr ⟨⟨node.id, port.id, base_name nfkd node ++ "_" ++
      identifier_or nfkd port.name "out"⟩, ?_, rfl⟩
    exact List.mem_flatMap.mpr ⟨node, Graph.mem_sorted_nodes.mpr ⟨id, hnode⟩,
      List.mem_map.mpr ⟨port, hport, rfl⟩⟩
  · intro ref name hname
    obtain ⟨b, hb, rfl, -⟩ := mem_of_var_for hname
    obtain ⟨e, he, rfl⟩ := List.mem_map.mp hb
    obtain ⟨node, hnode, he⟩ := List.mem_flatMap.mp he
    obtain ⟨port, hport, rfl⟩ := List.mem_map.mp he
    obtain ⟨id, hid⟩ := Graph.mem_sorted_nodes.mp hnode
    exact ⟨id, node, hid, port, hport, rfl⟩
  · intro ref name hname
    obtain ⟨b, hb, -, rfl⟩ := mem_of_var_for hname
    exact (hsafe.valid b hb).1
  · intro ref name hname
    obtain ⟨e, he, rfl | rfl⟩ := hentry hname
    · exact (port_entries_spec he).2
    · exact (suffixed_spec blake2s _ (port_entries_spec he)).2
  · intro ref name hname
    obtain ⟨e, he, hcases⟩ := hentry hname
    have hled : Led e.candidate := by
      obtain ⟨node, -, he⟩ := List.mem_flatMap.mp he
      obtain ⟨port, -, rfl⟩ := List.mem_map.mp he
      exact ((led_base_name nfkd node).append _).append _
    rcases hcases with rfl | rfl
    · exact hled
    · exact (hled.append _).append _
  · intro ref name hname
    obtain ⟨b, hb, -, rfl⟩ := mem_of_var_for hname
    exact hsafe.unreserved b hb
  · intro ref ref' name hname hname'
    obtain ⟨b, hb, rfl, rfl⟩ := mem_of_var_for hname
    obtain ⟨b', hb', rfl, heq⟩ := mem_of_var_for hname'
    by_contra hne
    refine hsafe.distinct b hb b' hb' (fun hkey => hne ?_) heq.symm
    obtain ⟨hnode, hport⟩ := Prod.mk.inj hkey
    rw [hnode, hport]

/-! ## Parameters and keywords -/

theorem formal_inj {i j : Nat} (h : formal i = formal j) : i = j :=
  Decimal.repr_inj.mp ((String.append_right_inj "p").mp h)

theorem mem_formal {i : Nat} {c : Char} (h : c ∈ (formal i).toList) :
    c = 'p' ∨ c.isDigit = true := by
  rw [formal, String.toList_append] at h
  rcases List.mem_append.mp h with hp | hdigit
  · exact .inl (List.mem_singleton.mp hp)
  · exact .inr (Decimal.isDigit_of_mem_repr hdigit)

theorem head_formal (i : Nat) : (formal i).toList.head? = some 'p' := by
  rw [formal, String.toList_append]
  rfl

theorem underscore_notMem_formal (i : Nat) : '_' ∉ (formal i).toList := by
  intro hmem
  rcases mem_formal hmem with h | h
  · cases h
  · cases h

theorem read_formal (none_value : V) (i : Nat) :
    read_expr none_value (formal i) = .var (formal i) := by
  apply read_var
  · intro h
    have hlist := congrArg String.toList h
    rw [formal, String.toList_append] at hlist
    exact absurd (List.head_eq_of_cons_eq hlist) (by decide)
  · intro hmem
    rcases mem_formal hmem with h | h
    · cases h
    · cases h

theorem underscore_mem_fn_name (nfkd : String → String) (node : Node Sub) :
    '_' ∈ (fn_name nfkd node).toList := by
  rw [fn_name, String.toList_append]
  exact List.mem_append_left _ (by decide)

theorem underscore_notMem_global {registry : NodeRegistry} {type name : String}
    (h : name ∈ global_names registry type) : '_' ∉ name.toList ∧ ∀ i, name ≠ formal i := by
  have hall : ∀ name ∈ ["ef", "client", "warehouse", "http"],
      '_' ∉ name.toList ∧ name.toList.head? ≠ some 'p' := by decide
  have hmem : name ∈ ["ef", "client", "warehouse", "http"] := by
    rcases List.mem_cons.mp h with rfl | h
    · decide
    · obtain ⟨kind, -, rfl⟩ := List.mem_map.mp h
      cases kind <;> decide
  obtain ⟨hunder, hhead⟩ := hall name hmem
  refine ⟨hunder, ?_⟩
  rintro i rfl
  exact hhead (head_formal i)

end EmergentFlow.Program
