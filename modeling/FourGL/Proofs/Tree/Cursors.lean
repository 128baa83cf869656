import FourGL.Proofs.Tree.Declarations

/-!
# Cursors and the loops over them

PREPARE and DECLARE give names to statements and cursors. Such a name belongs to the innermost
FOREACH around it that iterates a cursor of that name, else to the routine. While a body is read,
the names are handed to the loops around it, innermost first (`give`); in the tree each is found
with the node that takes it (`Node.delivered`).
-/

namespace FourGL

open FourGL.Parser FourGL.ParseState

/-! ## The last cursor of each name -/

/-- Of the cursors `cs`, the last of each name, in the order of the first ones. -/
structure Cursor.Latest (cs latest : List Cursor) : Prop where
  names_eq : latest.map (·.name.toLower) = (cs.map (·.name.toLower)).eraseDups
  nodup : (latest.map (·.name.toLower)).Nodup
  last_eq : ∀ c ∈ latest, (cs.filter (sameName ·.name c.name)).getLast? = some c

theorem eraseDups_concat [DecidableEq α] (as : List α) (a : α) :
    (as ++ [a]).eraseDups = if a ∈ as then as.eraseDups else as.eraseDups ++ [a] := by
  rw [List.eraseDups_append]
  by_cases ha : a ∈ as
  · simp [List.removeAll, ha]
  · simp [List.removeAll, ha, List.eraseDups_cons]

theorem Scope.map_placeCursor (c : Cursor) (ds : List Cursor) :
    (placeCursor c ds).map (·.name.toLower) = if c.name.toLower ∈ ds.map (·.name.toLower) then
      ds.map (·.name.toLower) else ds.map (·.name.toLower) ++ [c.name.toLower] := by
  induction ds with
  | nil => rfl
  | cons d ds ih =>
    rw [placeCursor]
    split
    next hsame =>
      rw [sameName_iff] at hsame
      simp [hsame]
    next hne =>
      rw [sameName_iff] at hne
      rw [List.map_cons, ih, List.map_cons]
      by_cases hmem : c.name.toLower ∈ ds.map (·.name.toLower)
      · rw [if_pos hmem, if_pos (List.mem_cons_of_mem _ hmem)]
      · rw [if_neg hmem, if_neg (by simp [Ne.symm hne, hmem]), List.cons_append]

theorem Scope.mem_placeCursor {c d : Cursor} {ds : List Cursor}
    (hnodup : (ds.map (·.name.toLower)).Nodup) (h : d ∈ placeCursor c ds) :
    d = c ∨ d ∈ ds ∧ sameName c.name d.name = false := by
  induction ds with
  | nil => exact .inl (List.mem_singleton.mp h)
  | cons e ds ih =>
    obtain ⟨he, hds⟩ := List.nodup_cons.mp hnodup
    rw [placeCursor] at h
    split at h
    next hsame =>
      obtain rfl | h := List.mem_cons.mp h
      · exact .inl rfl
      · refine .inr ⟨List.mem_cons_of_mem _ h, Bool.eq_false_iff.mpr fun hd => he ?_⟩
        rw [sameName_iff] at hsame hd
        exact List.mem_map.mpr ⟨d, h, (hsame.trans hd).symm⟩
    next hne =>
      obtain rfl | h := List.mem_cons.mp h
      · exact .inr ⟨List.mem_cons_self .., by
          rw [sameName_comm]; exact Bool.eq_false_iff.mpr hne⟩
      · exact (ih hds h).imp id fun ⟨h, hne⟩ => ⟨List.mem_cons_of_mem _ h, hne⟩

namespace Cursor.Latest

theorem nil : Latest [] [] := ⟨rfl, .nil, nofun⟩

/-- One more cursor takes the place of an earlier one of its name. -/
theorem place (h : Latest cs latest) (c : Cursor) :
    Latest (cs ++ [c]) (Scope.placeCursor c latest) := by
  have hmem : c.name.toLower ∈ latest.map (·.name.toLower) ↔
      c.name.toLower ∈ cs.map (·.name.toLower) := by
    rw [h.names_eq, List.mem_eraseDups]
  refine ⟨?_, ?_, fun d hd => ?_⟩
  · rw [Scope.map_placeCursor, List.map_append, List.map_singleton,
      eraseDups_concat, ← h.names_eq]
    exact if_congr hmem rfl rfl
  · rw [Scope.map_placeCursor]
    split
    · exact h.nodup
    next hc =>
      exact List.nodup_append.mpr ⟨h.nodup, List.pairwise_singleton _ _, fun a ha b hb => by
        rw [List.mem_singleton.mp hb]
        exact fun heq => hc (heq ▸ ha)⟩
  · rw [List.filter_append]
    obtain rfl | ⟨hd, hne⟩ := Scope.mem_placeCursor h.nodup hd
    · simp [sameName]
    · rw [List.filter_singleton, hne]
      simpa using h.last_eq d hd

theorem foldl (cs : List Cursor) :
    Latest cs (cs.foldl (fun ds c => Scope.placeCursor c ds) []) := by
  induction cs using List.reverseRecOn with
  | nil => exact nil
  | append_singleton cs c ih =>
    rw [List.foldl_append]
    exact ih.place c

end Cursor.Latest

/-! ## Handing cursors to loops -/

/-- The loops with the cursors that each takes of those that are offered, the innermost first. -/
def give (cs : List Cursor) : List LoopCursor → List LoopCursor
  | [] => []
  | l :: ls =>
    { l with redeclared := l.redeclared ++ cs.filter (sameName ·.name l.name) } ::
      give (cs.filter fun c => !sameName c.name l.name) ls

/-- The cursors that none of the loops takes. -/
def unclaimed (cs : List Cursor) (ls : List LoopCursor) : List Cursor :=
  cs.filter fun c => !ls.any (sameName c.name ·.name)

theorem give_nil (ls : List LoopCursor) : give [] ls = ls := by
  induction ls with
  | nil => rfl
  | cons l ls ih => simp [give, ih]

theorem give_append (cs ds : List Cursor) (ls : List LoopCursor) :
    give (cs ++ ds) ls = give ds (give cs ls) := by
  induction ls generalizing cs ds with
  | nil => rfl
  | cons l ls ih => simp [give, ih]

theorem map_name_give (cs : List Cursor) (ls : List LoopCursor) :
    (give cs ls).map (·.name) = ls.map (·.name) := by
  induction ls generalizing cs with
  | nil => rfl
  | cons l ls ih => simp [give, ih]

theorem unclaimed_give (cs ds : List Cursor) (ls : List LoopCursor) :
    unclaimed ds (give cs ls) = unclaimed ds ls := by
  have hany (c : Cursor) (ls : List LoopCursor) :
      ls.any (sameName c.name ·.name) = (ls.map (·.name)).any (sameName c.name) := by
    rw [List.any_map]
    rfl
  unfold unclaimed
  simp only [hany, map_name_give]

theorem unclaimed_append (cs ds : List Cursor) (ls : List LoopCursor) :
    unclaimed (cs ++ ds) ls = unclaimed cs ls ++ unclaimed ds ls := List.filter_append ..

theorem unclaimed_cons (cs : List Cursor) (l : LoopCursor) (ls : List LoopCursor) :
    unclaimed cs (l :: ls) = unclaimed (cs.filter fun c => !sameName c.name l.name) ls := by
  unfold unclaimed
  rw [List.filter_filter]
  refine List.filter_congr fun c _ => ?_
  rw [List.any_cons, Bool.not_or, Bool.and_comm]

/-- A cursor goes to the loop that claims it, if there is one. -/
theorem claim?_eq (c : Cursor) (ls : List LoopCursor) :
    Names.claim? c ls = some (give [c] ls) ∧ unclaimed [c] ls = [] ∨
      Names.claim? c ls = none ∧ unclaimed [c] ls = [c] ∧ give [c] ls = ls := by
  induction ls with
  | nil => exact .inr ⟨rfl, rfl, rfl⟩
  | cons l ls ih =>
    rw [Names.claim?, unclaimed_cons, give]
    cases hsame : sameName c.name l.name with
    | true => simp [hsame, give_nil, unclaimed]
    | false =>
      obtain ⟨hclaim, hleft⟩ | ⟨hclaim, hleft, hgive⟩ := ih
      · simp [hsame, hclaim, hleft]
      · simp [hsame, hclaim, hleft, hgive]

namespace NameState

/-- Cursors are handed to the loops around the place and, if no loop takes them, to an owner. -/
structure CursorsGiven (owner : Option Owner) (l : NameState) (cs : List Cursor)
    (l' : NameState) : Prop where
  loops_eq : l'.loops = give cs l.loops
  cursors_eq : ∀ o, (l'.scope o).cursors = if owner = some o then
    (unclaimed cs l.loops).foldl (fun ds c => Scope.placeCursor c ds) (l.scope o).cursors
    else (l.scope o).cursors

namespace CursorsGiven

theorem nothing (hloops : l'.loops = l.loops)
    (hcursors : ∀ o, (l'.scope o).cursors = (l.scope o).cursors) :
    CursorsGiven owner l [] l' := by
  refine ⟨by rw [hloops, give_nil], fun o => ?_⟩
  rw [hcursors o]
  exact (ite_self _).symm

theorem ofChangesOnly (h : ChangesOnly owner' l l') : CursorsGiven owner l [] l' :=
  .nothing h.loops_eq h.cursors_eq

theorem append (h₁ : CursorsGiven owner l cs l') (h₂ : CursorsGiven owner l' ds l'') :
    CursorsGiven owner l (cs ++ ds) l'' := by
  refine ⟨by rw [h₂.loops_eq, h₁.loops_eq, give_append], fun o => ?_⟩
  rw [h₂.cursors_eq, h₁.cursors_eq, h₁.loops_eq, unclaimed_give, unclaimed_append,
    List.foldl_append]
  split <;> rfl

theorem bind (owner : Owner) (c : Cursor) (l : NameState) :
    CursorsGiven (some owner) l [c] (l.bind (some owner) c) := by
  unfold NameState.bind
  obtain ⟨hclaim, hleft⟩ | ⟨hclaim, hleft, hgive⟩ := claim?_eq c l.loops
  · rw [hclaim]
    refine ⟨rfl, fun o => ?_⟩
    rw [hleft]
    exact (ite_self _).symm
  · rw [hclaim]
    refine ⟨hgive.symm, fun o => ?_⟩
    rw [hleft]
    dsimp only
    rw [Function.update_apply]
    by_cases ho : o = owner
    · rw [if_pos ho, if_pos (by rw [ho]), ho]
      rfl
    · rw [if_neg ho, if_neg fun h => ho (Option.some.inj h).symm]

end CursorsGiven

end NameState

/-! ## Cursors in a tree -/

namespace Node

/-- The token behind the first token of a node: for PREPARE and DECLARE, the name that they give. -/
def secondToken (text : String) (n : Node) : Token :=
  ((tokens .default text).find? (n.start < ·.start)).getD (.endOfFile text.length)

/-- The statement or cursor that a node names. -/
def cursor? (text : String) (n : Node) : Option Cursor := n.kind.cursor? (n.secondToken text).span

/-- A FOREACH takes the cursors of its name, a routine takes all. -/
def takes (name : String) (n : Node) : Bool :=
  match n.kind with
  | .foreachLoop (some cursor) .. => sameName name cursor
  | .main _ | .function .. => true
  | _ => false

/-- The cursors named in trees that no node around them there takes. -/
def offered (text : String) (ns : List Node) : List Cursor :=
  (walkList [] ns).filterMap fun x => (x.2.cursor? text).filter fun c => !x.1.any (·.takes c.name)

/-- The cursors named in a node that it takes, and no node inside it around them. -/
def delivered (text : String) (n : Node) : List Cursor :=
  (offered text n.children).filter (n.takes ·.name)

theorem offered_append (text : String) (ns ms : List Node) :
    offered text (ns ++ ms) = offered text ns ++ offered text ms := by
  unfold offered
  rw [walkList_append, List.filterMap_append]

theorem offered_singleton (text : String) (n : Node) :
    offered text [n] =
      (n.cursor? text).toList ++ (offered text n.children).filter fun c => !n.takes c.name := by
  unfold offered
  rw [walkList, walkList, List.append_nil, walk_eq, List.filterMap_cons, walkList_around [n],
    List.filterMap_map, List.filter_filterMap]
  have hhere : (n.cursor? text).filter (fun c => !([] : List Node).any (·.takes c.name)) =
      n.cursor? text := by
    cases n.cursor? text <;> rfl
  have hbelow (x : List Node × Node) :
      (x.2.cursor? text).filter (fun c => !(x.1 ++ [n]).any (·.takes c.name)) =
        ((x.2.cursor? text).filter fun c => !x.1.any (·.takes c.name)).filter
          fun c => !n.takes c.name := by
    rw [Option.filter_filter]
    congr 1
    funext c
    rw [List.any_append, Bool.not_or, List.any_cons, List.any_nil, Bool.or_false]
  rw [hhere]
  cases n.cursor? text <;> simp only [Function.comp_def, hbelow] <;> rfl

theorem takes_of_routine {n : Node} (h : n.kind.block? = some .MAIN ∨
    n.kind.block? = some .FUNCTION) (name : String) : n.takes name = true := by
  unfold takes
  cases hkind : n.kind <;> rw [hkind] at h <;> first | rfl | (obtain h | h := h <;> cases h)

theorem takes_of_isTransparent {n : Node} (h : n.kind.isTransparent = true) (name : String) :
    n.takes name = false := by
  unfold takes
  cases hkind : n.kind <;> rw [hkind] at h <;> first | rfl | cases h

/-- Where all that is offered is taken, every cursor has a node around it that takes it. -/
theorem exists_takes {text : String} {ns : List Node} (h : offered text ns = [])
    (hn : (path, n) ∈ walkList [] ns) (hc : n.cursor? text = some c) :
    ∃ m ∈ path, m.takes c.name = true := by
  have hnone := List.filterMap_eq_nil_iff.mp h _ hn
  rw [hc] at hnone
  simpa [Option.filter_some] using hnone

/-- A cursor is delivered to the innermost node around it that takes it. -/
theorem mem_delivered {text : String} {root n : Node} (hreach : root.Reaches path n)
    (hc : n.cursor? text = some c) (hm : path.find? (·.takes c.name) = some m) :
    c ∈ m.delivered text := by
  obtain ⟨htakes, inner, outer, rfl, hinner⟩ := List.find?_eq_some_iff_append.mp hm
  refine List.mem_filter.mpr ⟨List.mem_filterMap.mpr ⟨(inner, n), ?_, ?_⟩, htakes⟩
  · obtain ⟨hpath, -⟩ | ⟨k, hk, path', hreach, hpath⟩ := hreach.of_append.root_or_below
    · simp at hpath
    · obtain rfl := List.append_cancel_right hpath
      exact (mem_walkList [] _).mpr ⟨k, hk, inner, hreach, (List.append_nil _).symm⟩
  · simpa [hc, Option.filter_some] using hinner

end Node

/-- What stands behind the first token of a node comes next but one where the node is read. -/
theorem NodeRead.secondToken_eq (h : NodeRead s n t) (hat : At text s) :
    n.secondToken text = s.input.tokenAt 2 := by
  obtain ⟨done, hsplit, hdone⟩ := hat.split
  obtain ⟨l, ls, hrest⟩ := List.exists_cons_of_ne_nil (rest_ne_nil h.ne_endOfFile)
  have hstart : n.start = l.token.start := by
    rw [h.start_eq]
    simp [Lookahead.tokenAt, hrest]
  have hbefore : done.find? (n.start < ·.start) = none := by
    refine List.find?_eq_none.mpr fun t ht => ?_
    have hle := (bounds_of_mem_tokens (hsplit ▸ List.mem_append_left _ ht)).1
    have hplace := (h.place_le hat).1
    have hdone := hdone t ht
    simpa using by omega
  have hbehind : ∀ m ∈ ls, n.start < m.token.start := fun m hm => by
    rw [h.start_eq]
    exact hat.start_lt_of_mem (by rw [hrest]; exact hm)
  unfold Node.secondToken
  rw [hsplit, List.find?_append, hbefore, hrest, List.map_cons, List.find?_cons, hstart]
  cases ls with
  | nil => simp [Lookahead.tokenAt, hrest, hat.length_eq]
  | cons m ms => simp [Lookahead.tokenAt, hrest, hstart ▸ hbehind m (List.mem_cons_self ..)]

/-- The name of a cursor is not empty. -/
theorem Cursor.NamedBy.name_ne_empty (h : Cursor.NamedBy c (s.input.tokenAt depth))
    (hat : At text s) : c.name ≠ "" := by
  rw [h.name_eq]
  have hcan := h.canBeName
  unfold Lookahead.tokenAt at hcan ⊢
  split
  next l hl =>
    rw [hl] at hcan
    refine text_ne_empty_of_mem_tokens (hat.mem_tokens (List.mem_of_getElem? hl)) fun hend => ?_
    dsimp only at hcan
    rw [hend] at hcan
    cases hcan
  next hl =>
    rw [hl] at hcan
    cases hcan

/-! ## What is read -/

theorem eq_empty_of_sameName {name : String} (h : sameName name "" = true) : name = "" := by
  rw [sameName_iff] at h
  have hlist : name.toList.map Char.toLower = "".toList.map Char.toLower := by
    rw [← String.toList_map, ← String.toList_map]
    exact congrArg String.toList h
  exact String.toList_eq_nil_iff.mp (List.map_eq_nil_iff.mp hlist)

/-- Every cursor that is named in what is read has its name from the token behind the first one of
its node. -/
theorem NodesRead.named (h : NodesRead owners s ns t) (hat : At text s) {n : Node} (hn : n ∈ ns)
    (hreach : n.Reaches path m) (hc : m.cursor? text = some c) :
    c.NamedBy (m.secondToken text) ∧ c.name ≠ "" := by
  induction h generalizing n path with
  | idle => cases hn
  | append hfirst _ ih₁ ih₂ =>
    obtain hn | hn := List.mem_append.mp hn
    · exact ih₁ hat hn hreach
    · exact ih₂ (hfirst.flows.later.onward hat).1 hn hreach
  | leaf hnodeRead _ _ hchildren hcursor =>
    obtain rfl := List.mem_singleton.mp hn
    obtain ⟨-, rfl⟩ | ⟨c, hc, -⟩ := hreach.root_or_below
    · rw [Node.cursor?, hnodeRead.secondToken_eq hat] at hc
      have hnamed := (hcursor hc).2
      exact ⟨hnodeRead.secondToken_eq hat ▸ hnamed, hnamed.name_ne_empty hat⟩
    · rw [hchildren] at hc
      cases hc
  | node _ hbefore _ _ hencloses ih =>
    obtain rfl := List.mem_singleton.mp hn
    obtain ⟨-, rfl⟩ | ⟨c, hc, path', hreach, -⟩ := hreach.root_or_below
    · rw [Node.cursor?, hencloses.writes_nothing.2] at hc
      cases hc
    · exact ih (hbefore.later.onward hat).1 hc hreach

theorem NodesRead.name_ne_empty (h : NodesRead owners s ns t) (hat : At text s)
    (hc : c ∈ Node.offered text ns) : c.name ≠ "" := by
  obtain ⟨⟨path, m⟩, hm, hc⟩ := List.mem_filterMap.mp hc
  obtain ⟨n, hn, inner, hreach, -⟩ := (Node.mem_walkList [] ns).mp hm
  exact (h.named hat hn hreach (Option.eq_some_of_filter_eq_some hc)).2

/-- Where cursors would belong to the module, all that are named are taken by routines. -/
theorem NodesRead.offered_eq_nil (h : NodesRead owners s ns t) (hat : At text s)
    (hcursors : owners.cursors = some .module) : Node.offered text ns = [] := by
  induction h with
  | idle => rfl
  | append hfirst _ ih₁ ih₂ =>
    rw [Node.offered_append, ih₁ hat hcursors, ih₂ (hfirst.flows.later.onward hat).1 hcursors]
    rfl
  | leaf hnodeRead _ _ hchildren hcursor =>
    rw [Node.offered_singleton, hchildren, Node.cursor?, hnodeRead.secondToken_eq hat]
    cases hc : NodeKind.cursor? _ _ with
    | none => rfl
    | some c => exact absurd hcursors (hcursor hc).1
  | node _ hbefore _ _ hencloses ih =>
    rw [Node.offered_singleton, Node.cursor?, hencloses.writes_nothing.2]
    have hat := (hbefore.later.onward hat).1
    cases hencloses with
    | plain => rw [ih hat hcursors]; rfl
    | loop => rw [ih hat hcursors]; rfl
    | globals => rw [ih hat rfl]; rfl
    | routine _ hkind => simp [Node.takes_of_routine hkind]

namespace NameState.CursorsGiven

/-- A loop takes the cursors of its name; the others are handed on. -/
theorem ofLoop {l : NameState} (h : CursorsGiven owner (l.enterLoop name) cs l') :
    CursorsGiven owner l (cs.filter fun c => !sameName c.name name) l'.leaveLoop ∧
      l'.redeclared = cs.filter (sameName ·.name name) := by
  have hloops : l'.loops = give cs ({ name } :: l.loops) := h.loops_eq
  rw [give] at hloops
  refine ⟨⟨?_, fun o => ?_⟩, ?_⟩
  · rw [show l'.leaveLoop.loops = l'.loops.tail from rfl, hloops]
    rfl
  · have hcursors := h.cursors_eq o
    rw [show (l.enterLoop name).loops = { name } :: l.loops from rfl, unclaimed_cons] at hcursors
    exact hcursors
  · rw [redeclared, hloops]
    rfl

/-- A routine or a GLOBALS block hands nothing on. -/
theorem around {l : NameState} {inner : Owner} (h : CursorsGiven (some inner) l.enterBlock cs l')
    (hcs : inner = .block ∨ cs = []) : CursorsGiven owner l [] (l.leaveBlock l') := by
  refine .nothing rfl fun o => ?_
  rw [scope_leaveBlock]
  split
  · rfl
  next ho =>
    rw [h.cursors_eq, scope_enterBlock, if_neg ho]
    obtain rfl | rfl := hcs
    · exact if_neg fun h => ho (Option.some.inj h).symm
    · exact ite_self _

end NameState.CursorsGiven

/-- A loop takes the cursors of its name, and none if it has no name. -/
theorem Node.takes_of_loop {n : Node} {name : String}
    (hkind : n.kind = .foreachLoop cursor arguments into reoptimization redeclared)
    (hname : name ≠ "") : n.takes name = sameName name (cursor.getD "") := by
  unfold takes
  rw [hkind]
  cases cursor with
  | some cursor => rfl
  | none => exact (Bool.eq_false_iff.mpr fun h => hname (eq_empty_of_sameName h)).symm

/-- What is read hands on the cursors that none of its nodes takes. -/
theorem NodesRead.cursorsGiven (h : NodesRead owners s ns t) (hat : At text s)
    (howner : owners.cursors = some o) :
    s.nameState.CursorsGiven (some o) (Node.offered text ns) t.nameState := by
  induction h generalizing o with
  | idle _ hnameState =>
    rw [hnameState]
    exact .nothing rfl fun _ => rfl
  | append hfirst _ ih₁ ih₂ =>
    rw [Node.offered_append]
    exact (ih₁ hat howner).append (ih₂ (hfirst.flows.later.onward hat).1 howner)
  | leaf hnodeRead _ _ hchildren _ hnameState =>
    rw [Node.offered_singleton, hchildren, Node.cursor?, hnodeRead.secondToken_eq hat,
      hnameState, NameState.note]
    cases NodeKind.cursor? _ _ with
    | some c =>
      rw [howner]
      exact .bind o c _
    | none => exact .ofChangesOnly (NameState.changesOnly_declareAll _ _ _)
  | node _ hflows hinner _ hencloses ih =>
    have hat := (hflows.later.onward hat).1
    rw [Node.offered_singleton, Node.cursor?, hencloses.writes_nothing.2]
    cases hencloses with
    | plain hkind hbefore hbehind =>
      rw [hbehind, ← hbefore]
      simpa [Node.takes_of_isTransparent hkind] using ih hat howner
    | loop hkind hbefore hbehind =>
      have hgiven := ih hat howner
      rw [hbefore] at hgiven
      rw [hbehind, List.filter_congr fun c hc =>
        congrArg (!·) (Node.takes_of_loop hkind (hinner.name_ne_empty hat hc))]
      exact hgiven.ofLoop.1
    | routine _ hkind _ hbefore hbehind =>
      have hgiven := ih hat rfl
      rw [hbefore] at hgiven
      rw [hbehind]
      simpa [Node.takes_of_routine hkind] using hgiven.around (.inl rfl)
    | globals _ hkind hbefore hbehind =>
      have hgiven := ih hat rfl
      rw [hbefore, hinner.offered_eq_nil hat rfl] at hgiven
      rw [hinner.offered_eq_nil hat rfl, hbehind]
      have haround : NameState.CursorsGiven (some o) _ [] _ := hgiven.around (.inr rfl)
      exact ⟨haround.loops_eq, haround.cursors_eq⟩

/-- Below the nodes, each loop and each routine has the cursors that are delivered to it. -/
theorem NodesRead.delivers (h : NodesRead owners s ns t) (hat : At text s)
    (howner : owners.cursors = some o) {n : Node} (hn : n ∈ ns) (hreach : n.Reaches path m) :
    (∀ cursor arguments into reoptimization redeclared,
        m.kind = .foreachLoop cursor arguments into reoptimization redeclared →
          redeclared = m.delivered text) ∧
      ∀ scope, m.kind.scope? = some scope → Cursor.Latest (m.delivered text) scope.cursors := by
  induction h generalizing n path o with
  | idle => cases hn
  | append hfirst _ ih₁ ih₂ =>
    obtain hn | hn := List.mem_append.mp hn
    · exact ih₁ hat howner hn hreach
    · exact ih₂ (hfirst.flows.later.onward hat).1 howner hn hreach
  | leaf _ hleaf hscope hchildren =>
    obtain rfl := List.mem_singleton.mp hn
    obtain ⟨-, rfl⟩ | ⟨c, hc, -⟩ := hreach.root_or_below
    · refine ⟨fun _ _ _ _ _ hkind => ?_, fun scope h => ?_⟩
      · rw [hkind] at hleaf
        cases hleaf
      · rw [hscope] at h
        cases h
    · rw [hchildren] at hc
      cases hc
  | node _ hflows hinner _ hencloses ih =>
    have hat := (hflows.later.onward hat).1
    obtain rfl := List.mem_singleton.mp hn
    obtain ⟨-, rfl⟩ | ⟨c, hc, path', hreach, -⟩ := hreach.root_or_below
    · cases hencloses with
      | plain hkind =>
        refine ⟨fun _ _ _ _ _ h => ?_, fun scope h => ?_⟩
        · rw [h] at hkind
          cases hkind
        · rw [NodeKind.scope?_of_isTransparent hkind] at h
          cases h
      | loop hkind hbefore =>
        have hgiven := hinner.cursorsGiven hat howner
        rw [hbefore] at hgiven
        refine ⟨fun _ _ _ _ _ h => ?_, fun scope h => ?_⟩
        · rw [hkind] at h
          obtain ⟨-, -, -, -, rfl⟩ := NodeKind.foreachLoop.inj h
          rw [hgiven.ofLoop.2]
          exact (List.filter_congr fun c hc =>
            Node.takes_of_loop hkind (hinner.name_ne_empty hat hc)).symm
        · rw [hkind] at h
          cases h
      | routine _ hkind hscope hbefore =>
        have hgiven := hinner.cursorsGiven hat rfl
        rw [hbefore] at hgiven
        refine ⟨fun _ _ _ _ _ h => ?_, fun scope h => ?_⟩
        · rw [h] at hkind
          obtain h | h := hkind <;> cases h
        · obtain rfl := Option.some.inj (hscope.symm.trans h)
          have hall : m.delivered text = unclaimed (Node.offered text m.children) [] :=
            List.filter_congr fun c _ => Node.takes_of_routine hkind c.name
          rw [hgiven.cursors_eq, if_pos rfl, hall]
          exact .foldl _
      | globals _ hkind hbefore =>
        have hgiven := hinner.cursorsGiven hat rfl
        rw [hbefore] at hgiven
        refine ⟨fun _ _ _ _ _ h => ?_, fun scope h => ?_⟩
        · rw [hkind] at h
          cases h
        · rw [hkind] at h
          obtain rfl := Option.some.inj h
          rw [hgiven.cursors_eq, Node.delivered, hinner.offered_eq_nil hat rfl]
          exact .nil
    · cases hencloses with
      | plain | loop => exact ih hat howner hc hreach
      | routine | globals => exact ih hat rfl hc hreach

/-! ## Warnings -/

/-- The diagnostic is about the name of a cursor. -/
def Diagnostic.aboutCursor (d : Diagnostic) : Bool :=
  d.code == Message.cursorRefused.code || d.code == Message.cursorRedeclared.code

/-- What is to be said about a cursor that is redeclared in the loop over it. -/
def Cursor.warning (c : Cursor) : Diagnostic := .of .cursorRedeclared [c.name] (some c.span)

theorem Cursor.aboutCursor_warning (c : Cursor) : c.warning.aboutCursor = true := by
  show (Message.cursorRedeclared.code == Message.cursorRefused.code ||
    Message.cursorRedeclared.code == Message.cursorRedeclared.code) = true
  decide

/-- The cursors that a loop lists as redeclared in it. -/
def NodeKind.redeclarations : NodeKind → List Cursor
  | .foreachLoop _ _ _ _ redeclared => redeclared
  | _ => []

theorem NodeKind.redeclarations_of_block? {kind : NodeKind} (h : kind.block? ≠ some .FOREACH) :
    kind.redeclarations = [] := by
  cases kind <;> first | rfl | exact absurd rfl h

theorem NodeKind.redeclarations_of_isTransparent {kind : NodeKind} (h : kind.isTransparent = true) :
    kind.redeclarations = [] := by
  cases kind <;> first | rfl | cases h

namespace Node

/-- What is to be said about the cursors that are redeclared in loops over them. -/
def allWarnings (ns : List Node) : List Diagnostic :=
  (walkList [] ns).flatMap fun x => x.2.kind.redeclarations.map (·.warning)

theorem allWarnings_append (ns ms : List Node) :
    allWarnings (ns ++ ms) = allWarnings ns ++ allWarnings ms := by
  unfold allWarnings
  rw [walkList_append, List.flatMap_append]

theorem allWarnings_singleton (n : Node) :
    allWarnings [n] = n.kind.redeclarations.map (·.warning) ++ allWarnings n.children := by
  unfold allWarnings
  rw [walkList, walkList, List.append_nil, walk_eq, List.flatMap_cons, walkList_around [n],
    List.flatMap_map]

end Node

/-- At the end of a loop there is a warning about each cursor that it has taken. -/
theorem NameState.tells_leaveLoop (l : NameState) :
    l.Tells (·.aboutCursor) (l.redeclared.map (·.warning)) l.leaveLoop := by
  have hpass : (l.redeclared.map (·.warning)).reverse.filter (·.aboutCursor) =
      (l.redeclared.map (·.warning)).reverse := List.filter_eq_self.mpr fun d hd => by
    obtain ⟨c, -, rfl⟩ := List.mem_map.mp (List.mem_reverse.mp hd)
    exact c.aboutCursor_warning
  refine List.Perm.trans (.of_eq ?_) ((List.reverse_perm _).append_right _)
  exact (List.filter_append ..).trans (congrArg (· ++ _) hpass)

/-- What is read has told the cursors that its loops have taken, and nothing else about cursors. -/
theorem NodesRead.tells_cursors (h : NodesRead owners s ns t) (howner : owners.cursors = some o) :
    s.nameState.Tells (·.aboutCursor) (Node.allWarnings ns) t.nameState := by
  induction h generalizing o with
  | idle _ hnameState => exact .of_eq (by rw [hnameState]; rfl)
  | append _ _ ih₁ ih₂ =>
    rw [Node.allWarnings_append]
    exact (ih₁ howner).trans (ih₂ howner)
  | leaf _ hkind _ hchildren _ hnameState =>
    rw [Node.allWarnings_singleton, hchildren, NodeKind.redeclarations_of_block? (by simp [hkind]),
      hnameState, NameState.note]
    split
    next c _ =>
      rw [howner]
      refine .of_eq ?_
      unfold NameState.bind
      split <;> first | rfl | contradiction
    next =>
      obtain ⟨new, htold, hcode⟩ := (NameState.changesOnly_declareAll _ _ _).told
      exact .nothing htold fun d hd => by rw [Diagnostic.aboutCursor, hcode d hd]; rfl
  | node _ _ _ _ hencloses ih =>
    rw [Node.allWarnings_singleton]
    cases hencloses with
    | plain hkind hbefore hbehind =>
      rw [NodeKind.redeclarations_of_isTransparent hkind, hbehind, ← hbefore]
      exact ih howner
    | loop hkind hbefore hbehind =>
      rw [hkind, hbehind]
      have htells := ih howner
      rw [hbefore] at htells
      exact (NameState.Tells.trans htells (NameState.tells_leaveLoop _)).perm List.perm_append_comm
    | routine _ hkind _ hbefore hbehind =>
      have htells := ih rfl
      rw [hbefore] at htells
      rw [NodeKind.redeclarations_of_block? (by obtain h | h := hkind <;> simp [h]), hbehind]
      exact htells
    | globals _ hkind hbefore hbehind =>
      have htells := ih rfl
      rw [hbefore] at htells
      rw [hkind, hbehind]
      exact htells

/-! ## Modules -/

theorem Diagnostic.aboutNames_of_aboutCursor (d : Diagnostic) (h : d.aboutCursor = true) :
    d.aboutNames = true := by
  obtain h | h := Bool.or_eq_true_iff.mp h <;>
  · unfold aboutNames
    rw [show d.code = _ from beq_iff_eq.mp h]
    decide

/-- In the tree of a module, every name that PREPARE or DECLARE gives is delivered to the innermost
FOREACH around it over a cursor of that name, else to the routine. A FOREACH lists what is delivered
to it, with a warning about each, and a routine the last cursor of each name. -/
theorem parseModule_cursors (text : String) (options : ParseOptions) :
    (∀ path n c, (parseModule text options).module.Reaches path n → n.cursor? text = some c →
        c.NamedBy (n.secondToken text) ∧
          ∃ m, path.find? (·.takes c.name) = some m ∧ c ∈ m.delivered text) ∧
      (∀ path n cursor arguments into reoptimization redeclared,
        (parseModule text options).module.Reaches path n →
        n.kind = .foreachLoop cursor arguments into reoptimization redeclared →
        redeclared = n.delivered text) ∧
      (∀ path n scope, (parseModule text options).module.Reaches path n →
        n.kind.scope? = some scope → Cursor.Latest (n.delivered text) scope.cursors) ∧
      (∀ scope, (parseModule text options).module.kind.scope? = some scope →
        scope.cursors = []) ∧
      ((parseModule text options).diagnostics.filter (·.aboutCursor)).Perm
        (options.placed (Node.allWarnings [(parseModule text options).module])) ∧
      ∀ d ∈ (parseModule text options).diagnostics, d.code ≠ Message.cursorRefused.code := by
  obtain ⟨s, hnodesReadIn, hkind, -, hdiagnostics⟩ := nodesRead_parseModule text options
  have hat := at_ofText options.mode text
  have hnone := hnodesReadIn.nodesRead.offered_eq_nil hat rfl
  have hcursors : (s.nameState.scope .module).cursors = [] := by
    rw [(hnodesReadIn.nodesRead.cursorsGiven hat rfl).cursors_eq, hnone]
    rfl
  have hwarnings : ((parseModule text options).diagnostics.filter (·.aboutCursor)).Perm
      (options.placed (Node.allWarnings [(parseModule text options).module])) := by
    rw [hdiagnostics, options.filter_placed _ fun _ _ => rfl, Node.allWarnings_singleton, hkind]
    exact placed_perm options ((hnodesReadIn.at_text.read.1.perm_told
      Diagnostic.aboutNames_of_aboutCursor).trans
        ((hnodesReadIn.nodesRead.tells_cursors rfl).told_perm rfl))
  refine ⟨fun path n c hreach hc => ?_, fun path n _ _ _ _ _ hreach => ?_,
    fun path n scope hreach hscope => ?_, fun scope hscope => ?_, hwarnings, fun d hd hcode => ?_⟩
  · obtain ⟨-, rfl⟩ | ⟨k, hk, path', hreach', rfl⟩ := hreach.root_or_below
    · rw [Node.cursor?, hkind] at hc
      cases hc
    · refine ⟨(hnodesReadIn.nodesRead.named hat hk hreach' hc).1, ?_⟩
      have hwalk := (Node.mem_walkList [] _).mpr
        ⟨k, hk, path', hreach', (List.append_nil _).symm⟩
      obtain ⟨m, hm, htakes⟩ := Node.exists_takes hnone hwalk hc
      obtain ⟨m, hm⟩ := Option.isSome_iff_exists.mp
        (List.find?_isSome.mpr ⟨m, List.mem_append_left
          [(parseModule text options).module] hm, htakes⟩)
      exact ⟨m, hm, Node.mem_delivered hreach hc hm⟩
  · obtain ⟨-, rfl⟩ | ⟨k, hk, path', hreach', rfl⟩ := hreach.root_or_below
    · rw [hkind]
      nofun
    · exact (hnodesReadIn.nodesRead.delivers hat rfl hk hreach').1 _ _ _ _ _
  · obtain ⟨-, rfl⟩ | ⟨k, hk, path', hreach', rfl⟩ := hreach.root_or_below
    · rw [hkind] at hscope
      obtain rfl := Option.some.inj hscope
      rw [Node.delivered, hnone, hcursors]
      exact .nil
    · exact (hnodesReadIn.nodesRead.delivers hat rfl hk hreach').2 scope hscope
  · rw [hkind] at hscope
    obtain rfl := Option.some.inj hscope
    exact hcursors
  · have hmem := hwarnings.mem_iff.mp
      (List.mem_filter.mpr ⟨hd, by simp [Diagnostic.aboutCursor, hcode]⟩)
    obtain ⟨d', hd', hcode'⟩ := ParseOptions.code_of_mem_placed hmem
    obtain ⟨x, -, hd'⟩ := List.mem_flatMap.mp hd'
    obtain ⟨c, -, rfl⟩ := List.mem_map.mp hd'
    rw [hcode] at hcode'
    cases hcode'

end FourGL
