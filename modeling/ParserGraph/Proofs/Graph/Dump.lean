import ParserGraph.Proofs.Graph.Numbering

/-!
# What a dump says

The dump of a root that reaches only nodes never fails, and it is faithful (`dump_faithful`): it has
one entry for each node that can be reached, and an entry says of its node all but what the node is
called in its graph.

Isomorphic graphs have one dump, since their walks visit corresponding nodes in the same order
(`Isomorphism.dump_eq`). The other way round, two rows of nodes that one dump describes correspond
place by place (`Faithful.isomorphism`). So dumps tell rooted graphs apart exactly up to isomorphism
(`dump_eq_iff_isomorphic`).
-/

namespace ParserGraph

/-- The value of a key in a dictionary. -/
def Value.field? : Value → String → Option Value
  | .dict fields, key => fields.lookup key
  | _, _ => none

namespace Graph

variable {g g' : Graph} {root root' o : Object} {row row' : List Object}

/-! ## Lists of results -/

theorem exists_mapM_eq_ok {α β : Type} {f : α → Except Fault β} {R : α → β → Prop} {l : List α}
    (h : ∀ a ∈ l, ∃ b, f a = .ok b ∧ R a b) : ∃ bs, l.mapM f = .ok bs ∧ List.Forall₂ R l bs := by
  induction l with
  | nil => exact ⟨[], rfl, .nil⟩
  | cons a l ih =>
    obtain ⟨⟨b, hb, hR⟩, hl⟩ := List.forall_mem_cons.mp h
    obtain ⟨bs, hbs, hRs⟩ := ih hl
    exact ⟨b :: bs, by rw [List.mapM_cons, hb, hbs]; rfl, .cons hR hRs⟩

theorem mapM_congr {α β : Type} {f f' : α → Except Fault β} {l : List α}
    (h : ∀ a ∈ l, f a = f' a) : l.mapM f = l.mapM f' := by
  induction l with
  | nil => rfl
  | cons a l ih =>
    obtain ⟨ha, hl⟩ := List.forall_mem_cons.mp h
    rw [List.mapM_cons, List.mapM_cons, ha, ih hl]

theorem bind_return_eq_map {α β : Type} (result : Except Fault α) (f : α → β) :
    (do return f (← result)) = result.map f := by
  cases result <;> rfl

/-! ## Entries -/

/-- What an entry says of a node with a parser, where nodes are known by their places in a row. -/
structure Describes (row : List Object) (place : Nat) (p : Parser) (entry : Value) : Prop where
  id : entry.field? "id" = some (.int place)
  kind : entry.field? "kind" = some (.text p.kind)
  range {lower upper : Value} : p = .literal lower upper →
    entry.field? "range" = some (.list [lower, upper])
  transform {c : Object} {t : Transform} : p = .map c t →
    entry.field? "transform" = some (.text t.label)
  name {name : Value} {target : Option NodeId} : p = .forward name target →
    entry.field? "name" = some name
  /-- The places of the children, in order and as often as they occur. -/
  children : ∃ places : List Nat,
    entry.field? "children" = some (.list (places.map fun (i : Nat) => .int i)) ∧
      List.Forall₂ (fun (c : Object) (i : Nat) => row[i]? = some c) p.children places

/-- A dump has the nodes of a row, which are all that the root reaches, as its entries. -/
structure Faithful (g : Graph) (root : Object) (row : List Object) (dump : Value) : Prop where
  numbers : g.Numbers root row
  root : dump.field? "root" = some (.int 0)
  nodes : ∃ entries, dump.field? "nodes" = some (.list entries) ∧ entries.length = row.length ∧
    ∀ i o, row[i]? = some o →
      ∃ p entry, g.parser? o = some p ∧ entries[i]? = some entry ∧ Describes row i p entry

/-- A node is found at its place. -/
theorem findIdx?_same {id : NodeId} (h : .node id ∈ row) :
    ∃ i, row.findIdx? (Object.node id).same = some i ∧ row[i]? = some (.node id) := by
  obtain ⟨i, hi⟩ := Option.isSome_iff_exists.mp
    (List.findIdx?_isSome.trans (List.any_eq_true.mpr ⟨_, h, same_node.mpr rfl⟩))
  obtain ⟨hlt, hs, -⟩ := List.findIdx?_eq_some_iff_getElem.mp hi
  exact ⟨i, hi, by rw [List.getElem?_eq_getElem hlt, same_node.mp hs]⟩

theorem describes_toValue {p : Parser} {places : List Nat} (i : Nat)
    (h : List.Forall₂ (fun (c : Object) (i : Nat) => row[i]? = some c) p.children places) :
    Describes row i p (Entry.toValue i { label := p.label, children := places }) := by
  cases p <;>
    exact ⟨rfl, rfl, by rintro _ _ ⟨⟩ <;> rfl, by rintro _ _ ⟨⟩ <;> rfl,
      by rintro _ _ ⟨⟩ <;> rfl, places, rfl, h⟩

theorem entry_eq {p : Parser} (hp : g.parser? o = some p) :
    g.entry row o =
      (p.children.mapM fun child => Fault.noSuchKey.orElse (row.findIdx? child.same)).map
        fun children => { label := p.label, children } := by
  rw [entry, hp]
  exact bind_return_eq_map (p.children.mapM _) _

theorem entry_spec (hn : g.OnlyNodes root) (hrow : g.Numbers root row) (ho : o ∈ row) :
    ∃ e, g.entry row o = .ok e ∧
      ∃ p, g.parser? o = some p ∧ ∀ i, Describes row i p (e.toValue i) := by
  have hr := hrow.mem_iff.mp ho
  obtain ⟨-, p, -, hp⟩ := hn.exists_parser? hr
  obtain ⟨places, hplaces, hc⟩ := exists_mapM_eq_ok (l := p.children)
    (f := fun child => Fault.noSuchKey.orElse (row.findIdx? child.same))
    (R := fun c i => row[i]? = some c) fun c hc => by
      obtain ⟨id, -, rfl, -⟩ := hn.exists_parser? (hr.tail ⟨p, hp, hc⟩)
      obtain ⟨i, hi, hat⟩ := findIdx?_same (hrow.mem_iff.mpr (hr.tail ⟨p, hp, hc⟩))
      exact ⟨i, by rw [hi]; rfl, hat⟩
  exact ⟨_, by rw [entry_eq hp, hplaces]; rfl, p, hp, fun i => describes_toValue i hc⟩

theorem OnlyNodes.dump_eq (hn : g.OnlyNodes root) :
    g.dump root = ((g.walk root).visited.mapM (g.entry (g.walk root).visited)).map Dump.mk := by
  rw [dump, hn.reachable_eq]
  exact bind_return_eq_map ((g.walk root).visited.mapM _) _

/-- A dump does not fail, and is faithful. -/
theorem dump_faithful (hn : g.OnlyNodes root) :
    ∃ d, g.dump root = .ok d ∧ g.Faithful root (g.walk root).visited d.toValue := by
  have hrow := hn.numbers
  obtain ⟨entries, hentries, hall⟩ :=
    exists_mapM_eq_ok fun o ho => entry_spec hn hrow ho
  refine ⟨⟨entries⟩, ?_, hrow, rfl, entries.mapIdx Entry.toValue, rfl, ?_, fun i o hi => ?_⟩
  · rw [hn.dump_eq, hentries]
    rfl
  · rw [List.length_mapIdx, hall.length_eq]
  · obtain ⟨hlt, rfl⟩ := List.getElem?_eq_some_iff.mp hi
    have hlt' : i < entries.length := hall.length_eq ▸ hlt
    obtain ⟨p, hp, hd⟩ := hall.get hlt hlt'
    exact ⟨p, _, hp, by rw [List.getElem?_mapIdx, List.getElem?_eq_getElem hlt']; rfl, hd i⟩

/-! ## Isomorphic graphs -/

/-- Corresponding nodes are found at the same place. -/
theorem findIdx?_map_same {f : Object → Object} {c : Object}
    (h : ∀ x ∈ row, (f c).same (f x) = c.same x) :
    (row.map f).findIdx? (f c).same = row.findIdx? c.same := by
  induction row with
  | nil => rfl
  | cons x row ih =>
    obtain ⟨hx, hrow⟩ := List.forall_mem_cons.mp h
    rw [List.map_cons, List.findIdx?_cons, List.findIdx?_cons, hx, ih hrow]

variable {f : Object → Object}

theorem Isomorphism.entry_eq (hi : g.Isomorphism root g' root' f) (hn : g.OnlyNodes root)
    (hn' : g'.OnlyNodes root') (hrow : g.Numbers root row) (ho : o ∈ row) :
    g'.entry (row.map f) (f o) = g.entry row o := by
  have hr := hrow.mem_iff.mp ho
  obtain ⟨p, p', hp, hp', hlabel, hchildren⟩ := hi.parser? hr
  have hplaces : (p.children.map f).mapM (fun child =>
      Fault.noSuchKey.orElse ((row.map f).findIdx? child.same)) =
      p.children.mapM fun child => Fault.noSuchKey.orElse (row.findIdx? child.same) := by
    rw [List.mapM_map]
    refine mapM_congr fun c hc => ?_
    have hsame : ∀ x ∈ row, (f c).same (f x) = c.same x := fun x hx =>
      hi.same hn hn' (hr.tail ⟨p, hp, hc⟩) (hrow.mem_iff.mp hx)
    rw [Function.comp_apply, findIdx?_map_same hsame]
  rw [Graph.entry_eq hp, Graph.entry_eq hp', hlabel, hchildren, hplaces]

/-- Isomorphic graphs have one dump. -/
theorem Isomorphism.dump_eq (hi : g.Isomorphism root g' root' f) (hn : g.OnlyNodes root)
    (hn' : g'.OnlyNodes root') : g'.dump root' = g.dump root := by
  have hentries : ((g.walk root).visited.map f).mapM (g'.entry ((g.walk root).visited.map f)) =
      (g.walk root).visited.mapM (g.entry (g.walk root).visited) := by
    rw [List.mapM_map]
    exact mapM_congr fun o ho => hi.entry_eq hn hn' hn.numbers ho
  rw [hn.dump_eq, hn'.dump_eq, hi.visited hn hn', hentries]

/-! ## Graphs with one dump -/

/-- An entry determines the label of the node that it describes. -/
theorem Describes.label_eq {p p' : Parser} {entry : Value} {i i' : Nat}
    (h : Describes row i p entry) (h' : Describes row' i' p' entry) : p'.label = p.label := by
  have hk : p.kind = p'.kind := by simpa [h.kind] using h'.kind
  cases p with
  | literal lower upper =>
    obtain ⟨lower', upper', rfl⟩ : ∃ lower' upper', p' = .literal lower' upper' := by
      cases p' <;> simp [Parser.kind] at hk ⊢
    have hr := h.range rfl
    rw [h'.range rfl] at hr
    cases hr
    rfl
  | map c t =>
    obtain ⟨c', t', rfl⟩ : ∃ c' t', p' = .map c' t' := by
      cases p' <;> simp [Parser.kind] at hk ⊢
    have ht := h.transform rfl
    rw [h'.transform rfl] at ht
    simp only [Option.some.injEq, Value.text.injEq] at ht
    rw [Parser.label, Parser.label, ht]
  | forward name target =>
    obtain ⟨name', target', rfl⟩ : ∃ name' target', p' = .forward name' target' := by
      cases p' <;> simp [Parser.kind] at hk ⊢
    have hname := h.name rfl
    rw [h'.name rfl] at hname
    cases hname
    rfl
  | _ => cases p' <;> first | rfl | simp [Parser.kind] at hk

theorem eq_map_of_places {cs cs' : List Object} {places : List Nat}
    (h : List.Forall₂ (fun (c : Object) (i : Nat) => row[i]? = some c) cs places)
    (h' : List.Forall₂ (fun (c : Object) (i : Nat) => (row.map f)[i]? = some c) cs' places) :
    cs' = cs.map f := by
  induction h generalizing cs' with
  | nil =>
    cases h'
    rfl
  | cons hat _ ih =>
    cases h' with
    | cons hat' hrest =>
      rw [List.getElem?_map, hat, Option.map_some] at hat'
      rw [List.map_cons, ← ih hrest, Option.some.inj hat']

theorem Describes.children_eq {p p' : Parser} {entry : Value} {i i' : Nat}
    (h : Describes row i p entry) (h' : Describes (row.map f) i' p' entry) :
    p'.children = p.children.map f := by
  obtain ⟨places, hplaces, hc⟩ := h.children
  obtain ⟨places', hplaces', hc'⟩ := h'.children
  rw [hplaces'] at hplaces
  have hinj : Function.Injective fun (i : Nat) => Value.int i := fun a b hab =>
    Int.ofNat.inj (Value.int.inj hab)
  obtain rfl := List.map_injective_iff.mpr hinj (Value.list.inj (Option.some.inj hplaces))
  exact eq_map_of_places hc hc'

/-- Two rows of one length correspond, if the nodes of the first are different. -/
theorem exists_eq_map (hn : row.Nodup) (hl : row.length = row'.length) : ∃ f, row' = row.map f := by
  classical
  induction row generalizing row' with
  | nil => exact ⟨id, by rw [List.map_nil, List.eq_nil_of_length_eq_zero hl.symm]⟩
  | cons a row ih =>
    obtain ⟨b, row', rfl⟩ := List.exists_cons_of_length_eq_add_one hl.symm
    obtain ⟨ha, hn⟩ := List.nodup_cons.mp hn
    obtain ⟨f, rfl⟩ := ih hn (Nat.succ.inj hl)
    refine ⟨Function.update f a b, ?_⟩
    rw [List.map_cons, Function.update_self]
    exact congrArg (b :: ·) (List.map_congr_left fun x hx =>
      (Function.update_of_ne (fun he : x = a => ha (he ▸ hx)) b f).symm)

/-- Nodes at the same place of one dump correspond. -/
theorem Faithful.isomorphism {dump : Value} (h : g.Faithful root row dump)
    (h' : g'.Faithful root' row' dump) : ∃ f, g.Isomorphism root g' root' f := by
  obtain ⟨entries, hnodes, hlength, hall⟩ := h.nodes
  obtain ⟨entries', hnodes', hlength', hall'⟩ := h'.nodes
  rw [hnodes] at hnodes'
  cases hnodes'
  obtain ⟨f, rfl⟩ := exists_eq_map h.numbers.nodup (hlength.symm.trans hlength')
  have hinj := List.inj_on_of_nodup_map h'.numbers.nodup
  refine ⟨f, ⟨fun o ho => ?_, fun x hx y hy => ?_, fun o' ho' => ?_⟩, ?_, fun {o} ho => ?_⟩
  · exact h'.numbers.mem_iff.mp (List.mem_map_of_mem (h.numbers.mem_iff.mpr ho))
  · exact hinj (h.numbers.mem_iff.mpr hx) (h.numbers.mem_iff.mpr hy)
  · obtain ⟨o, ho, rfl⟩ := List.mem_map.mp (h'.numbers.mem_iff.mpr ho')
    exact ⟨o, h.numbers.mem_iff.mp ho, rfl⟩
  · have hroot := h'.numbers.getElem?_zero
    rw [List.getElem?_map, h.numbers.getElem?_zero] at hroot
    exact Option.some.inj hroot
  · obtain ⟨i, hi⟩ := List.mem_iff_getElem?.mp (h.numbers.mem_iff.mpr ho)
    obtain ⟨p, entry, hp, hentry, hd⟩ := hall i o hi
    obtain ⟨p', entry', hp', hentry', hd'⟩ := hall' i (f o) (by rw [List.getElem?_map, hi]; rfl)
    rw [hentry] at hentry'
    cases hentry'
    exact ⟨p, p', hp, hp', hd.label_eq hd', hd.children_eq hd'⟩

/-- Roots that reach only nodes have dumps, which are faithful; and the dumps are equal exactly if
there is an isomorphism of what the roots reach. -/
theorem dump_eq_iff_isomorphic (h : g.OnlyNodes root) (h' : g'.OnlyNodes root') :
    ∃ d d', g.dump root = .ok d ∧ g'.dump root' = .ok d' ∧
      (∃ row, g.Faithful root row d.toValue) ∧
      (d.toValue = d'.toValue ↔ ∃ f, g.Isomorphism root g' root' f) := by
  obtain ⟨d, hd, hf⟩ := dump_faithful h
  obtain ⟨d', hd', hf'⟩ := dump_faithful h'
  refine ⟨d, d', hd, hd', ⟨_, hf⟩, fun he => hf.isomorphism (he ▸ hf'), fun ⟨f, hi⟩ => ?_⟩
  have heq := hi.dump_eq h h'
  rw [hd, hd'] at heq
  cases heq
  rfl

/-- That only nodes can be reached can be found out node by node. -/
theorem onlyNodes_of_nodes (hroot : (g.node? root).isSome = true)
    (h : ∀ id < g.size, ∀ c ∈ ((g.parser? (.node id)).map (·.children)).getD [],
      (g.node? c).isSome = true) : g.OnlyNodes root := by
  intro o ho
  induction ho with
  | refl => exact hroot
  | @tail b c _ hc ih =>
    obtain ⟨p, hp, hcp⟩ := hc
    obtain ⟨id, node, rfl, hn⟩ := node?_of_isSome ih
    exact h id (isSome_node?.mp ih) c (by rwa [hp])

/-- A cycle through a sequence, which has one child twice and a reference without a target. -/
def knot : Graph where
  nodes := #[
    { parser := .forward (.text "knot") (some 2) },
    { parser := .forward (.text "gap") none },
    { parser := .sequence [.node 0, .node 3, .node 1, .node 3] },
    { parser := .map (.node 4) .words },
    { parser := .literal (.character 'a') (.character 'z') }]

/-- The same cycle, made in another order and after a node that is not part of it. -/
def tiedAgain : Graph where
  nodes := #[
    { parser := .endOfInput },
    { parser := .literal (.character 'a') (.character 'z') },
    { parser := .map (.node 1) .words },
    { parser := .forward (.text "gap") none },
    { parser := .sequence [.node 5, .node 2, .node 3, .node 2], compacted := true },
    { parser := .forward (.text "knot") (some 4) }]

theorem knot_dump :
    knot.OnlyNodes (.node 0) ∧ tiedAgain.OnlyNodes (.node 5) ∧
      ∃ d d', knot.dump (.node 0) = .ok d ∧ tiedAgain.dump (.node 5) = .ok d' ∧
        (∃ row, knot.Faithful (.node 0) row d.toValue) ∧
        (d.toValue = d'.toValue ↔ ∃ f, knot.Isomorphism (.node 0) tiedAgain (.node 5) f) := by
  have h : knot.OnlyNodes (.node 0) := onlyNodes_of_nodes rfl (by decide)
  have h' : tiedAgain.OnlyNodes (.node 5) := onlyNodes_of_nodes rfl (by decide)
  exact ⟨h, h', dump_eq_iff_isomorphic h h'⟩

end Graph

end ParserGraph
