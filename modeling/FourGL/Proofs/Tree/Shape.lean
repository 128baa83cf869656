import FourGL.Proofs.Grammar.ShapeState
import FourGL.Proofs.Tree.NodeGrammar

/-!
# Statements and clauses that do not go together

Values are returned only from a function, a CASE has one OTHERWISE, a module one MAIN, and in a menu
there has to be something to select. While a text is read this is checked with what has been written
down before (`Node.check`). Here it is shown what that comes to: one report for each node that a
look at the whole tree finds at fault.
-/

namespace FourGL

open FourGL.Parser FourGL.ParseState

/-! ## What is wrong with a tree -/

/-- How many values a RETURN returns. -/
def NodeKind.returned? : NodeKind → Option Nat
  | .returnValues values => some values.length
  | _ => none

namespace Node

def isMain (n : Node) : Bool := n.kind matches .main _

/-- None of the nodes is a function. -/
def OutsideFunction (around : List Node) : Prop := ∀ a ∈ around, a.kind.returnArities? = none

instance (around : List Node) : Decidable (OutsideFunction around) :=
  inferInstanceAs (Decidable (∀ a ∈ around, _))

/-- Outside of functions nothing may be returned. -/
def strayReturn (around : List Node) (n : Node) : List Diagnostic :=
  match n.kind with
  | .returnValues values =>
    if values ≠ [] ∧ OutsideFunction around then
      [.of .returnOutsideFunction [] (some n.extent.span)]
    else []
  | _ => []

def secondOtherwise (n : Node) : Diagnostic := .of .secondOtherwise [] (some n.extent.header)

/-- Of the OTHERWISE clauses of a CASE, all but the first are too many. -/
def secondOtherwises (n : Node) : List Diagnostic :=
  match n.kind with
  | .caseOf _ => (n.children.filter isOtherwise).tail.map secondOtherwise
  | _ => []

/-- In a menu there has to be something to select. -/
def emptyMenu (n : Node) : List Diagnostic :=
  match n.kind with
  | .menu _ =>
    if n.children.any isSelectable then [] else [.of .emptyMenu [] (some n.extent.header)]
  | _ => []

def secondMain (n : Node) : Diagnostic := .of .secondMain [] (some n.extent.header)

/-- What is wrong with a node, apart from a MAIN too many. -/
def faults (around : List Node) (n : Node) : List Diagnostic :=
  n.strayReturn around ++ n.secondOtherwises ++ n.emptyMenu

def allFaults (around ns : List Node) : List Diagnostic :=
  (walkList around ns).flatMap fun x => x.2.faults x.1

/-- Of those in a list for which something holds all but the first, or all if there has been one
before. -/
def later (p : α → Bool) (seen : Bool) (l : List α) : List α :=
  if seen then l.filter p else (l.filter p).tail

theorem later_append (p : α → Bool) (seen : Bool) (l m : List α) :
    later p seen (l ++ m) = later p seen l ++ later p (seen || l.any p) m := by
  cases seen with
  | true => exact List.filter_append ..
  | false =>
    induction l with
    | nil => rfl
    | cons a l ih =>
      cases ha : p a with
      | true => simp [later, ha]
      | false => simpa [later, ha] using ih

theorem later_singleton (p : α → Bool) (seen : Bool) (a : α) :
    later p seen [a] = if p a && seen then [a] else [] := by
  cases seen <;> cases h : p a <;> simp [later, h]

/-- What is wrong with nodes that stand side by side, where `seen` and `hasMain` say whether there
has been an OTHERWISE beside them or a MAIN anywhere before them. -/
def findings (around : List Node) (seen hasMain : Bool) (ns : List Node) : List Diagnostic :=
  allFaults around ns ++ (later isOtherwise seen ns).map secondOtherwise ++
    (later (isMain ·.2) hasMain (walkList around ns)).map (secondMain ·.2)

theorem allFaults_append (around ns ms : List Node) :
    allFaults around (ns ++ ms) = allFaults around ns ++ allFaults around ms := by
  rw [allFaults, walkList_append, List.flatMap_append, allFaults, allFaults]

theorem allFaults_singleton (around : List Node) (n : Node) :
    allFaults around [n] = n.faults around ++ allFaults (n :: around) n.children := by
  rw [allFaults, walkList, walkList, List.append_nil, walk_eq, List.flatMap_cons, allFaults]

/-- What has to hold of a node with the nodes `around` it so that its faults can be told while it is
read: MAIN stands in no function, and only a CASE holds an OTHERWISE. -/
structure InPlace (around : List Node) (n : Node) : Prop where
  main : n.isMain = true → OutsideFunction around
  otherwise : ∀ c ∈ n.children, isOtherwise c = true → n.kind.block? = some .CASE

theorem InPlace.secondOtherwises_eq {n : Node} (h : n.InPlace around) :
    n.secondOtherwises = (later isOtherwise false n.children).map secondOtherwise := by
  unfold secondOtherwises
  split
  next => rfl
  next hkind =>
    have hnone : n.children.filter isOtherwise = [] := by
      refine List.filter_eq_nil_iff.mpr fun c hc hotherwise => ?_
      have hcase := h.otherwise c hc hotherwise
      cases hn : n.kind <;> rw [hn] at hcase <;> cases hcase
      exact hkind _ hn
    rw [later, hnone]
    rfl

/-- What is told about a node itself, be it before or behind what is told about its children. -/
def ownFindings (around : List Node) (seen hasMain : Bool) (n : Node) : List Diagnostic :=
  n.strayReturn around ++ n.emptyMenu ++
    (later isOtherwise seen [n]).map secondOtherwise ++
    (later (isMain ·.2) hasMain [(around, n)]).map (secondMain ·.2)

end Node

/-! ## What is told -/

/-- Between two shape states exactly what is wrong with the nodes is told. -/
structure Finds (around : List Node) (seen : Bool) (ns : List Node) (r r' : ShapeState) : Prop where
  told : ∀ d, r'.told.count d = (Node.findings around seen r.hasMain ns).count d + r.told.count d
  hasMain_eq : r'.hasMain = (r.hasMain || (Node.walkList around ns).any (Node.isMain ·.2))

namespace Finds

theorem nil (around : List Node) (seen : Bool) (r : ShapeState) : Finds around seen [] r r where
  told d := by
    cases seen <;> cases hmain : r.hasMain <;>
      simp [Node.findings, Node.allFaults, Node.walkList, Node.later]
  hasMain_eq := by simp [Node.walkList]

theorem append (h₁ : Finds around seen ns r r₁)
    (h₂ : Finds around (seen || ns.any isOtherwise) ms r₁ r₂) :
    Finds around seen (ns ++ ms) r r₂ where
  told d := by
    rw [h₂.told, h₁.told, h₁.hasMain_eq]
    simp only [Node.findings, Node.allFaults_append, Node.walkList_append, Node.later_append,
      List.map_append, List.count_append]
    omega
  hasMain_eq := by
    rw [h₂.hasMain_eq, h₁.hasMain_eq, Node.walkList_append, List.any_append, Bool.or_assoc]

/-- What is told about a node is told about its children and about the node itself. -/
theorem node {n : Node} (hplace : n.InPlace around)
    (h : Finds (n :: around) false n.children r₁ r₂)
    (hmain₁ : r₁.hasMain = (r.hasMain || n.isMain)) (hmain₂ : r'.hasMain = r₂.hasMain)
    (htold : ∀ d, r'.told.count d + r₁.told.count d =
      (n.ownFindings around seen r.hasMain).count d + (r₂.told.count d + r.told.count d)) :
    Finds around seen [n] r r' where
  told d := by
    have hd := htold d
    have hwalk : Node.walkList around [n] = [(around, n)] ++ Node.walkList
        (n :: around) n.children := by
      rw [Node.walkList, Node.walkList, List.append_nil, Node.walk_eq, List.singleton_append]
    have hany : (r.hasMain || [(around, n)].any (Node.isMain ·.2)) = r₁.hasMain := by
      rw [hmain₁, List.any_cons, List.any_nil, Bool.or_false]
    rw [h.told] at hd
    simp only [Node.findings, Node.ownFindings, Node.allFaults_singleton, Node.faults,
      hplace.secondOtherwises_eq, hwalk, Node.later_append, hany, List.map_append,
      List.count_append] at hd ⊢
    omega
  hasMain_eq := by
    rw [hmain₂, h.hasMain_eq, hmain₁, Node.walkList, Node.walkList,
      List.append_nil, Node.walk_eq, List.any_cons, Bool.or_assoc]

end Finds

namespace Node

theorem outsideFunction_cons {n : Node} {around : List Node} :
    OutsideFunction (n :: around) ↔ n.kind.returnArities? = none ∧ OutsideFunction around :=
  List.forall_mem_cons

mutual

/-- Checking a node tells what is wrong in its tree. -/
theorem finds_check : (n : Node) → {around : List Node} → {returns : Option Owner} →
    (returns = none ↔ OutsideFunction around) → (∀ x ∈ n.walk around, x.2.InPlace x.1) →
    (seen : Bool) → (r : ShapeState) → Finds around seen [n] r (n.check returns seen r)
  | ⟨extent, kind, children⟩, around, returns, hreturns, hplace, seen, r => by
    rw [walk, List.forall_mem_cons] at hplace
    obtain ⟨hself, hbelow⟩ := hplace
    have hsame (hkind : kind.returnArities? = none) :
        returns = none ↔ OutsideFunction (⟨extent, kind, children⟩ :: around) := by
      rw [outsideFunction_cons, hreturns]
      exact (and_iff_right hkind).symm
    cases kind
    case returnValues values =>
      refine .node hself (finds_checkList children (hsame rfl) hbelow false _) ?_ rfl fun d => ?_
      · rw [ShapeState.hasMain_note]
        exact (Bool.or_false _).symm
      · have hown : ownFindings around seen r.hasMain
          ⟨extent, .returnValues values, children⟩ =
            if values.length ≠ 0 ∧ returns = none then
              [.of .returnOutsideFunction [] (some extent.span)] else [] := by
          simp [ownFindings, strayReturn, emptyMenu, later_singleton, isOtherwise, isMain, hreturns]
        rw [hown, ShapeState.told_note, List.count_append, check]
        omega
    case otherwiseClause =>
      refine .node hself (finds_checkList children (hsame rfl) hbelow false _) ?_ rfl fun d => ?_
      · rw [ShapeState.hasMain_tellIf]
        exact (Bool.or_false _).symm
      · have hown : ownFindings around seen r.hasMain ⟨extent, .otherwiseClause, children⟩ =
            if seen then [.of .secondOtherwise [] (some extent.header)] else [] := by
          cases seen <;> simp [ownFindings, strayReturn, emptyMenu, later_singleton,
            isOtherwise, isMain, secondOtherwise]
        rw [hown, ShapeState.told_tellIf, List.count_append, check]
        omega
    case main scope =>
      have houtside := hself.main rfl
      refine .node hself (finds_checkList children ?_ hbelow false _) ?_ rfl fun d => ?_
      · exact iff_of_true rfl (outsideFunction_cons.mpr ⟨rfl, houtside⟩)
      · exact (Bool.or_true _).symm
      · have hown : ownFindings around seen r.hasMain ⟨extent, .main scope, children⟩ =
            if r.hasMain then [.of .secondMain [] (some extent.header)] else [] := by
          cases r.hasMain <;> simp [ownFindings, strayReturn, emptyMenu,
            later_singleton, isOtherwise, isMain, secondMain]
        rw [hown, ShapeState.told_enterBlock, ShapeState.told_enterMain, List.count_append, check,
          ShapeState.told_leaveBlock]
        omega
    case function =>
      refine .node hself (finds_checkList children ?_ hbelow false _) ?_ rfl fun d => ?_
      · refine iff_of_false (Option.some_ne_none _) fun houtside => ?_
        cases (outsideFunction_cons.mp houtside).1
      · exact (Bool.or_false _).symm
      · simp [ownFindings, strayReturn, emptyMenu, later_singleton, isOtherwise, isMain, check]
    case menu title =>
      refine .node hself (finds_checkList children (hsame rfl) hbelow false r) ?_ ?_ fun d => ?_
      · exact (Bool.or_false _).symm
      · exact ShapeState.hasMain_tellIf ..
      · have hown : ownFindings around seen r.hasMain ⟨extent, .menu title, children⟩ =
            if !children.any isSelectable then [.of .emptyMenu [] (some extent.header)]
            else [] := by
          cases hany : children.any isSelectable <;> simp [ownFindings, strayReturn, emptyMenu,
            later_singleton, isOtherwise, isMain, hany]
        rw [hown, check, ShapeState.told_tellIf, List.count_append]
        omega
    case globals =>
      refine .node hself (finds_checkList children (hsame rfl) hbelow false _) ?_ rfl fun d => ?_
      · exact (Bool.or_false _).symm
      · simp [ownFindings, strayReturn, emptyMenu, later_singleton, isOtherwise, isMain, check]
    all_goals
      refine .node hself (finds_checkList children (hsame rfl) hbelow false r) ?_ rfl fun d => ?_
      · exact (Bool.or_false _).symm
      · simp [ownFindings, strayReturn, emptyMenu, later_singleton, isOtherwise, isMain, check]

theorem finds_checkList : (ns : List Node) → {around : List Node} → {returns : Option Owner} →
    (returns = none ↔ OutsideFunction around) →
    (∀ x ∈ walkList around ns, x.2.InPlace x.1) →
    (seen : Bool) → (r : ShapeState) → Finds around seen ns r (checkList returns seen ns r)
  | [], around, _, _, _, seen, r => .nil around seen r
  | n :: ns, around, returns, hreturns, hplace, seen, r => by
    rw [walkList, List.forall_mem_append] at hplace
    have hfirst := finds_check n hreturns hplace.1 seen r
    have hany : [n].any isOtherwise = isOtherwise n := by
      rw [List.any_cons, List.any_nil, Bool.or_false]
    exact hfirst.append (hany ▸ finds_checkList ns hreturns hplace.2 _ _)

end

mutual

/-- Where nothing collects what is returned for itself, every RETURN counts. -/
theorem returned_eq : (n : Node) → (around : List Node) →
    (∀ x ∈ n.walk around, x.2.kind.isMember = false) →
    n.returned = (n.walk around).filterMap (·.2.kind.returned?)
  | ⟨extent, kind, children⟩, around, h => by
    rw [walk, List.forall_mem_cons] at h
    have ih := returnedList_eq children _ h.2
    rw [walk, List.filterMap_cons]
    cases kind
    case main | function | globals => cases h.1
    case returnValues values => exact congrArg (values.length :: ·) ih
    all_goals exact ih

theorem returnedList_eq : (ns : List Node) → (around : List Node) →
    (∀ x ∈ walkList around ns, x.2.kind.isMember = false) →
    returnedList ns = (walkList around ns).filterMap (·.2.kind.returned?)
  | [], _, _ => rfl
  | n :: ns, around, h => by
    rw [walkList, List.forall_mem_append] at h
    rw [returnedList, walkList, List.filterMap_append, returned_eq n around h.1,
      returnedList_eq ns around h.2]

end

/-! ## Codes -/

theorem filter_code {ds : List Diagnostic} (h : ∀ d ∈ ds, d.code = code) (c : Nat) :
    ds.filter (·.code == c) = if code = c then ds else [] := by
  split
  next hc => exact List.filter_eq_self.mpr fun d hd => by simp [h d hd, hc]
  next hc => exact List.filter_eq_nil_iff.mpr fun d hd => by simp [h d hd, hc]

theorem code_strayReturn {n : Node} (h : d ∈ n.strayReturn around) :
    d.code = Message.returnOutsideFunction.code := by
  unfold strayReturn at h
  split at h
  · split at h
    · rw [List.mem_singleton.mp h]
      rfl
    · cases h
  · cases h

theorem code_secondOtherwises {n : Node} (h : d ∈ n.secondOtherwises) :
    d.code = Message.secondOtherwise.code := by
  unfold secondOtherwises at h
  split at h
  · obtain ⟨c, -, rfl⟩ := List.mem_map.mp h
    rfl
  · cases h

theorem code_emptyMenu {n : Node} (h : d ∈ n.emptyMenu) : d.code = Message.emptyMenu.code := by
  unfold emptyMenu at h
  split at h
  · split at h
    · cases h
    · rw [List.mem_singleton.mp h]
      rfl
  · cases h

theorem filter_faults (around : List Node) (n : Node) (c : Nat) :
    (n.faults around).filter (·.code == c) =
      (if Message.returnOutsideFunction.code = c then n.strayReturn around else []) ++
        (if Message.secondOtherwise.code = c then n.secondOtherwises else []) ++
        (if Message.emptyMenu.code = c then n.emptyMenu else []) := by
  rw [faults, List.filter_append, List.filter_append, filter_code fun _ => code_strayReturn,
    filter_code fun _ => code_secondOtherwises, filter_code fun _ => code_emptyMenu]

/-- What is wrong with a whole tree, by code. -/
theorem filter_findings {n : Node} (h : isOtherwise n = false) (c : Nat) :
    (findings [] false false [n]).filter (·.code == c) =
      ((n.walk []).flatMap fun x => (x.2.faults x.1).filter (·.code == c)) ++
        if Message.secondMain.code = c then ((n.walk []).filter (·.2.isMain)).tail.map
          (·.2.secondMain)
        else [] := by
  have hmains : ∀ d ∈ (later (isMain ·.2) false (n.walk [])).map (secondMain ·.2),
      d.code = Message.secondMain.code := fun d hd => by
    obtain ⟨x, -, rfl⟩ := List.mem_map.mp hd
    rfl
  have hwalk : walkList [] [n] = n.walk [] := List.append_nil _
  rw [findings, later_singleton, h, Bool.false_and, if_neg Bool.false_ne_true, List.map_nil,
    List.append_nil, List.filter_append, allFaults, hwalk, List.filter_flatMap, filter_code hmains]
  rfl

end Node

/-! ## Whole texts -/

theorem Diagnostic.IsFrom.not_aboutShape {d : Diagnostic} (h : d.IsFrom scanMessages) :
    d.aboutShape = false := by
  obtain ⟨m, hm, args, span, rfl⟩ := h
  obtain rfl | rfl | rfl | rfl := hm <;> rfl

/-- What is said with one of the codes is what the shape state has. -/
theorem ParseState.At.perm_shapeState {m : Message} (h : At text s) (hm : m.aboutShape = true) :
    (s.diagnostics.filter (·.code == m.code)).Perm
      (s.shapeState.told.filter (·.code == m.code)) := by
  have habout (d : Diagnostic) (hd : (d.code == m.code) = true) : d.aboutShape = true := by
    rw [Diagnostic.aboutShape, eq_of_beq hd]
    exact hm
  refine (h.perm_filter fun d hd => ?_).trans (.of_eq ?_)
  · exact Bool.eq_false_iff.mpr fun hcode =>
      Bool.false_ne_true (hd.not_aboutShape.symm.trans (habout d hcode))
  · refine (List.filter_congr fun d _ => ?_).trans (List.filter_filter ..).symm
    cases hd : d.code == m.code with
    | false => rfl
    | true => rw [habout d hd]; rfl

namespace Node

/-- In a valid tree under a module every node is where its faults can be told. -/
theorem Valid.inPlace {root n : Node} (h : root.Valid False) (hroot : root.kind.isModule = true)
    (hreach : root.Reaches path n) : n.InPlace path where
  main hmain := by
    have hmember : n.kind.isMember = true := by
      cases hkind : n.kind <;> simp [isMain, hkind] at hmain
      rfl
    rw [(h.wellPlaced hroot hreach).member hmember]
    refine List.forall_mem_singleton.mpr ?_
    cases hkind : root.kind <;> rw [hkind] at hroot <;> first | rfl | cases hroot
  otherwise c hc hotherwise := by
    have hclause : c.kind.isCaseClause = true := by
      cases hkind : c.kind <;> simp [isOtherwise, hkind] at hotherwise
      rfl
    exact (NodeKind.block?_of_holds ((h path n hreach).1.children c hc)).2.2.1 hclause

/-- A function knows how many values the RETURNs below it return. -/
theorem Valid.returnArities_eq {root n : Node} (h : root.Valid False)
    (hroot : root.kind.isModule = true) (hreach : root.Reaches path n) (hcounts : n.Counts)
    (harities : n.kind.returnArities? = some arities) :
    arities = (walkList [] n.children).filterMap (·.2.kind.returned?) := by
  rw [hcounts arities harities]
  refine returnedList_eq n.children [] fun x hx => Bool.eq_false_iff.mpr fun hmember => ?_
  obtain ⟨c, hc, inner, hinner, -⟩ := (mem_walkList [] n.children).mp hx
  -- Members stand only in the module itself, which is no function.
  have hpath := (h.wellPlaced hroot ((hreach.child hc).trans hinner)).member hmember
  obtain ⟨-, hpath⟩ := List.append_eq_singleton_iff.mp hpath |>.resolve_right (by simp)
  obtain ⟨rfl, -⟩ := List.cons.inj hpath
  cases hkind : n.kind <;> rw [hkind] at hroot harities <;> cases harities
  cases hroot

end Node

/-- The members of a module are checked from an empty shape state on. -/
theorem listed_parseModule (text : String) (options : ParseOptions) :
    ∃ s, Listed text none (.ofText options.mode text)
      (parseModule text options).module.children s ∧
      (parseModule text options).diagnostics = options.placed s.read.diagnostics := by
  refine ⟨((bodyAt maxNesting (.root options.version) .members).run
    (.ofText options.mode text)).2, ?_, rfl⟩
  have hbodies := checksBodies maxNesting
  exact @hbodies.listed (.root options.version) .members _ _ _ _ _ rfl (at_ofText _ _)
    (ignores_keepsShapes rfl)

/-- What is said about statements and clauses that do not go together is what is wrong with the
tree. -/
theorem perm_findings {m : Message} (hm : m.aboutShape = true) (text : String)
    (options : ParseOptions) :
    ((parseModule text options).diagnostics.filter (·.code == m.code)).Perm
      (options.placed ((Node.findings [] false false [(parseModule text options).module]).filter
        (·.code == m.code))) := by
  obtain ⟨s, hlisted, hdiagnostics⟩ := listed_parseModule text options
  have hvalid := (valid_parseModule text options).2
  have hplace (x : List Node × Node) (hx : x ∈ (parseModule text options).module.walk []) :
      x.2.InPlace x.1 := by
    obtain ⟨inner, hreach, hpath⟩ := (Node.mem_walk [] _).mp hx
    rw [hpath, List.append_nil]
    exact hvalid.inPlace rfl hreach
  have hfinds := Node.finds_check (parseModule text options).module
    (iff_of_true rfl (List.forall_mem_nil _)) hplace false
    (ofText options.mode text).shapeState
  have htold : s.shapeState.told.Perm
      (Node.findings [] false false [(parseModule text options).module]) := by
    refine List.perm_iff_count.mpr fun d => ?_
    rw [hlisted.shapeState_eq]
    exact hfinds.told d
  rw [hdiagnostics, options.filter_placed _ fun _ _ => rfl]
  exact placed_perm options ((hlisted.at_text.read.1.perm_shapeState hm).trans (htold.filter _))

/-- A look at the tree of a module tells what each function returns, and which reports there are
about statements and clauses that do not go together: one for each RETURN of values outside of
functions, for each OTHERWISE of a CASE and each MAIN behind the first, and for each menu with
nothing to select. -/
theorem parseModule_shape (text : String) (options : ParseOptions) :
    let module := (parseModule text options).module
    let nodes := module.walk []
    let said (m : Message) := (parseModule text options).diagnostics.filter (·.code == m.code)
    (∀ path n, module.Reaches path n → ∀ arities, n.kind.returnArities? = some arities →
      arities = (Node.walkList [] n.children).filterMap (·.2.kind.returned?)) ∧
    (said .returnOutsideFunction).Perm
      (options.placed (nodes.flatMap fun x => x.2.strayReturn x.1)) ∧
    (said .secondOtherwise).Perm (options.placed (nodes.flatMap (·.2.secondOtherwises))) ∧
    (said .secondMain).Perm
      (options.placed ((nodes.filter (·.2.isMain)).tail.map (·.2.secondMain))) ∧
    (said .emptyMenu).Perm (options.placed (nodes.flatMap (·.2.emptyMenu))) := by
  intro module nodes said
  have hperm {m : Message} (hm : m.aboutShape = true) :
      (said m).Perm (options.placed
        ((Node.findings [] false false [module]).filter (·.code == m.code))) :=
    perm_findings hm text options
  simp only [Node.filter_findings (n := module) rfl, Node.filter_faults] at hperm
  have hnone : (module.walk []).flatMap (fun _ => ([] : List Diagnostic)) = [] :=
    List.flatMap_eq_nil_iff.mpr fun _ _ => rfl
  refine ⟨fun path n hreach arities harities => ?_, ?_, ?_, ?_, ?_⟩
  · obtain ⟨s, hlisted, -⟩ := listed_parseModule text options
    have hcounts := Node.allCount_of_children (n := module) (Node.counts_of_none rfl) hlisted.counts
    exact (valid_parseModule text options).2.returnArities_eq rfl hreach
      (hcounts path n hreach) harities
  · simpa +decide using hperm (m := .returnOutsideFunction) rfl
  · simpa +decide using hperm (m := .secondOtherwise) rfl
  · simpa +decide [hnone] using hperm (m := .secondMain) rfl
  · simpa +decide using hperm (m := .emptyMenu) rfl

end FourGL
