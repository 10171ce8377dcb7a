import EmergentFlow.Ui.CanvasModel

/-!
# Ui — Skeleton

What the structural checks of the IR look at in a graph, whether it is a document
of the wire or the model of the canvas: the ids, the ports and the groups of its
nodes, the edges between them, the names of its params. The rules tell which
changes keep a skeleton sound.
-/

namespace EmergentFlow.Canvas

variable {Sub Sub' : Type} {ok : Sub → Prop} {ok' : Sub' → Prop}

/-- What the structural checks see of a node. -/
structure NodeFrame (Sub : Type) where
  id : String
  ports : List (String × Direction)
  group : Option String
  inner : Option Sub

/-- What they see of a graph. -/
@[ext]
structure Skeleton (Sub : Type) where
  node : String → Option (NodeFrame Sub)
  edge : String → Option EdgeModel
  param : String → Option String

/-- Of two ports with one id the later one counts. -/
def NodeFrame.port (f : NodeFrame Sub) (id : String) : Option Direction :=
  (f.ports.reverse.find? (·.1 = id)).map (·.2)

/-- The direction of the port that an end names. -/
def Skeleton.direction (sk : Skeleton Sub) (e : EndModel) : Option Direction :=
  e.port_id.bind fun id => (sk.node e.node_id).bind (·.port id)

/-- The structure is valid, with inner graphs that are `ok`. -/
structure Skeleton.Sound (ok : Sub → Prop) (sk : Skeleton Sub) : Prop where
  node_id : ∀ {k f}, sk.node k = some f → f.id = k
  param_name : ∀ {k name}, sk.param k = some name → name = k
  edge_id : ∀ {k e}, sk.edge k = some e → e.id = k
  source_out : ∀ {k e}, sk.edge k = some e → sk.direction e.source = some .OUT
  target_in : ∀ {k e}, sk.edge k = some e → sk.direction e.target = some .IN
  group : ∀ {k f gid}, sk.node k = some f → f.group = some gid → (sk.node gid).isSome
  inner : ∀ {k f sub}, sk.node k = some f → f.inner = some sub → ok sub

theorem Skeleton.direction_eq_some {sk : Skeleton Sub} {e : EndModel} {d : Direction} :
    sk.direction e = some d ↔
      ∃ id f, e.port_id = some id ∧ sk.node e.node_id = some f ∧ f.port id = some d := by
  simp only [Skeleton.direction, Option.bind_eq_some_iff]
  constructor
  · rintro ⟨id, hid, f, hf, hport⟩
    exact ⟨id, f, hid, hf, hport⟩
  · rintro ⟨id, f, hid, hf, hport⟩
    exact ⟨id, hid, f, hf, hport⟩

/-- Where no two ports have one id, each counts. -/
theorem NodeFrame.port_of_mem {f : NodeFrame Sub} (hnodup : (f.ports.map (·.1)).Nodup)
    {id : String} {d : Direction} (h : (id, d) ∈ f.ports) : f.port id = some d := by
  have hnodup' : (f.ports.reverse.map (·.1)).Nodup := by
    rw [List.map_reverse]
    exact List.nodup_reverse.mpr hnodup
  have hfound : f.ports.reverse.find? (·.1 = id) = some (id, d) :=
    Dict.find?_key hnodup' (List.mem_reverse.mpr h)
  rw [NodeFrame.port, hfound, Option.map_some]

/-- The direction at an end depends on the ports of its node only. -/
theorem Skeleton.direction_of_ports {sk : Skeleton Sub} {sk' : Skeleton Sub'} {e : EndModel}
    (h : (sk'.node e.node_id).map (·.ports) = (sk.node e.node_id).map (·.ports)) :
    sk'.direction e = sk.direction e := by
  have hport : ∀ {T : Type} (x : Option (NodeFrame T)) id, x.bind (·.port id) =
      (x.map (·.ports)).bind fun ports => (ports.reverse.find? (·.1 = id)).map (·.2) := by
    intro T x id
    rw [Option.bind_map]
    rfl
  simp only [Skeleton.direction, hport, h]

/-- What an edge is plugged into. -/
def NodeFrame.sockets (f : NodeFrame Sub) : String × List (String × Direction) := (f.id, f.ports)

/-- The nodes have their ports still: groups and inner graphs may be others. -/
theorem Skeleton.Sound.relabel {sk : Skeleton Sub} {sk' : Skeleton Sub'} (hs : sk.Sound ok)
    (hnode : ∀ k, (sk'.node k).map (·.sockets) = (sk.node k).map (·.sockets))
    (hedge : sk'.edge = sk.edge) (hparam : sk'.param = sk.param)
    (hgroup : ∀ {k f gid}, sk'.node k = some f → f.group = some gid → (sk'.node gid).isSome)
    (hinner : ∀ {k f sub}, sk'.node k = some f → f.inner = some sub → ok' sub) :
    sk'.Sound ok' := by
  have hdirection : ∀ e, sk'.direction e = sk.direction e := by
    intro e
    apply Skeleton.direction_of_ports
    have hports := congrArg (Option.map (·.2)) (hnode e.node_id)
    rwa [Option.map_map, Option.map_map] at hports
  refine ⟨?_, ?_, ?_, ?_, ?_, hgroup, hinner⟩
  · intro k f' hk
    have hat := hnode k
    rw [hk] at hat
    obtain ⟨f, hf, hsockets⟩ := Option.map_eq_some_iff.mp hat.symm
    exact (congrArg (·.1) hsockets).symm.trans (hs.node_id hf)
  · intro k name hk
    exact hs.param_name (hparam ▸ hk)
  · intro k e hk
    exact hs.edge_id (hedge ▸ hk)
  · intro k e hk
    rw [hdirection]
    exact hs.source_out (hedge ▸ hk)
  · intro k e hk
    rw [hdirection]
    exact hs.target_in (hedge ▸ hk)

theorem Skeleton.Sound.end_isSome {sk : Skeleton Sub} {e : EndModel} {d : Direction}
    (h : sk.direction e = some d) : (sk.node e.node_id).isSome := by
  obtain ⟨-, f, -, hf, -⟩ := Skeleton.direction_eq_some.mp h
  exact Option.isSome_iff_exists.mpr ⟨f, hf⟩

/-- Nodes are added, in groups that are there then. -/
theorem Skeleton.Sound.extend {sk sk' : Skeleton Sub} (hs : sk.Sound ok)
    (hold : ∀ {k f}, sk.node k = some f → sk'.node k = some f)
    (hnew : ∀ {k f}, sk'.node k = some f → sk.node k = none → f.id = k ∧
      (∀ gid, f.group = some gid → (sk'.node gid).isSome) ∧
      ∀ sub, f.inner = some sub → ok sub)
    (hedge : sk'.edge = sk.edge) (hparam : sk'.param = sk.param) : sk'.Sound ok := by
  have hdirection : ∀ {e d}, sk.direction e = some d → sk'.direction e = some d := by
    intro e d h
    obtain ⟨f, hf⟩ := Option.isSome_iff_exists.mp (end_isSome h)
    have hsame : sk'.direction e = sk.direction e := by
      apply Skeleton.direction_of_ports
      rw [hold hf, hf]
    rw [hsame, h]
  have hcases : ∀ {k f}, sk'.node k = some f → sk.node k = some f ∨ sk.node k = none := by
    intro k f hk
    cases hsk : sk.node k with
    | none => exact .inr rfl
    | some f' => exact .inl ((hold hsk).symm.trans hk)
  refine ⟨?_, ?_, ?_, ?_, ?_, ?_, ?_⟩
  · intro k f hk
    rcases hcases hk with hsk | hsk
    · exact hs.node_id hsk
    · exact (hnew hk hsk).1
  · intro k name hk
    exact hs.param_name (hparam ▸ hk)
  · intro k e hk
    exact hs.edge_id (hedge ▸ hk)
  · intro k e hk
    exact hdirection (hs.source_out (hedge ▸ hk))
  · intro k e hk
    exact hdirection (hs.target_in (hedge ▸ hk))
  · intro k f gid hk hgid
    rcases hcases hk with hsk | hsk
    · obtain ⟨f', hf'⟩ := Option.isSome_iff_exists.mp (hs.group hsk hgid)
      exact Option.isSome_iff_exists.mpr ⟨f', hold hf'⟩
    · exact (hnew hk hsk).2.1 gid hgid
  · intro k f sub hk hsub
    rcases hcases hk with hsk | hsk
    · exact hs.inner hsk hsub
    · exact (hnew hk hsk).2.2 sub hsub

/-- Nodes are removed, with the edges at them, that are the group of none that stays. -/
theorem Skeleton.Sound.restrict {sk sk' : Skeleton Sub} (hs : sk.Sound ok) (gone : String → Prop)
    (hnode : ∀ {k f}, sk'.node k = some f ↔ sk.node k = some f ∧ ¬ gone k)
    (hgroup : ∀ {k f gid}, sk'.node k = some f → f.group = some gid → ¬ gone gid)
    (hedge : ∀ {k e}, sk'.edge k = some e →
      sk.edge k = some e ∧ ¬ gone e.source.node_id ∧ ¬ gone e.target.node_id)
    (hparam : sk'.param = sk.param) : sk'.Sound ok := by
  have hdirection : ∀ {e d}, ¬ gone e.node_id → sk.direction e = some d →
      sk'.direction e = some d := by
    intro e d hgone h
    obtain ⟨f, hf⟩ := Option.isSome_iff_exists.mp (end_isSome h)
    have hsame : sk'.direction e = sk.direction e := by
      apply Skeleton.direction_of_ports
      rw [hnode.mpr ⟨hf, hgone⟩, hf]
    rw [hsame, h]
  refine ⟨?_, ?_, ?_, ?_, ?_, ?_, ?_⟩
  · intro k f hk
    exact hs.node_id (hnode.mp hk).1
  · intro k name hk
    exact hs.param_name (hparam ▸ hk)
  · intro k e hk
    exact hs.edge_id (hedge hk).1
  · intro k e hk
    exact hdirection (hedge hk).2.1 (hs.source_out (hedge hk).1)
  · intro k e hk
    exact hdirection (hedge hk).2.2 (hs.target_in (hedge hk).1)
  · intro k f gid hk hgid
    obtain ⟨f', hf'⟩ := Option.isSome_iff_exists.mp (hs.group (hnode.mp hk).1 hgid)
    exact Option.isSome_iff_exists.mpr ⟨f', hnode.mpr ⟨hf', hgroup hk hgid⟩⟩
  · intro k f sub hk hsub
    exact hs.inner (hnode.mp hk).1 hsub

/-- The edges are others, each from an OUT port to an IN port. -/
theorem Skeleton.Sound.rewire {sk sk' : Skeleton Sub} (hs : sk.Sound ok)
    (hnode : sk'.node = sk.node)
    (hedge : ∀ {k e}, sk'.edge k = some e → sk.edge k = some e ∨ e.id = k ∧
      sk.direction e.source = some .OUT ∧ sk.direction e.target = some .IN)
    (hparam : sk'.param = sk.param) : sk'.Sound ok := by
  have hdirection : ∀ e, sk'.direction e = sk.direction e := by
    intro e
    rw [Skeleton.direction, Skeleton.direction, hnode]
  refine ⟨?_, ?_, ?_, ?_, ?_, ?_, ?_⟩
  · intro k f hk
    exact hs.node_id (hnode ▸ hk)
  · intro k name hk
    exact hs.param_name (hparam ▸ hk)
  · intro k e hk
    exact (hedge hk).elim hs.edge_id (·.1)
  · intro k e hk
    rw [hdirection]
    exact (hedge hk).elim hs.source_out (·.2.1)
  · intro k e hk
    rw [hdirection]
    exact (hedge hk).elim hs.target_in (·.2.2)
  · intro k f gid hk hgid
    rw [hnode] at hk ⊢
    exact hs.group hk hgid
  · intro k f sub hk hsub
    exact hs.inner (hnode ▸ hk) hsub

/-- The params are others, each under its name. -/
theorem Skeleton.Sound.reparam {sk sk' : Skeleton Sub} (hs : sk.Sound ok)
    (hnode : sk'.node = sk.node) (hedge : sk'.edge = sk.edge)
    (hparam : ∀ {k name}, sk'.param k = some name → name = k) : sk'.Sound ok := by
  have hsame : ({ sk' with param := sk.param } : Skeleton Sub) = sk :=
    Skeleton.ext hnode hedge rfl
  rw [← hsame] at hs
  exact { hs with param_name := hparam }

end EmergentFlow.Canvas
