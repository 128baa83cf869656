import FourGL.Proofs.Grammar.Levels

/-!
# How deep trees are

Statements and expressions count how deep they nest. The counter is balanced: whatever is read, it
stands behind it where it stood before, and it never exceeds what the levels that are left allow.
The depth of the tree follows the counter, since a node that counts is read one level deeper than
the nodes around it.
-/

namespace FourGL

open FourGL.Parser FourGL.ParseState

/-! ## The warning -/

def Diagnostic.aboutLimit (d : Diagnostic) : Bool := d.code == Message.nestingTooDeep.code

/-- It has been reported as often that the text nests too deep as it is noted, once or never. -/
def ParseState.WarnedOnce (s : ParseState) : Prop :=
  s.reports.countP (·.aboutLimit) = if s.limitReported then 1 else 0

def warningOnce : RunProperty := fun _ s t => s.WarnedOnce → t.WarnedOnce

instance : warningOnce.Allows l l' := ⟨id⟩

theorem ignores_warningOnce {m : Message} (h : m.code ≠ Message.nestingTooDeep.code) :
    warningOnce.Ignores m where
  report _ s args span hs := by
    have hm : (Diagnostic.of m args (some span)).aboutLimit = false := beq_false_of_ne h
    unfold WarnedOnce
    rwa [List.countP_cons_of_neg (by simp [hm])]

theorem warnedOnce_reportLimit (h : s.WarnedOnce) : (reportLimit.run s).2.WarnedOnce := by
  unfold WarnedOnce at h
  cases hlimit : s.limitReported with
  | true =>
    rw [hlimit] at h
    unfold reportLimit
    rw [run_bind, show (ask (·.limitReported)).run s = (true, s) from Prod.ext hlimit rfl]
    exact h
  | false =>
    rw [hlimit] at h
    unfold reportLimit
    rw [run_bind, show (ask (·.limitReported)).run s = (false, s) from Prod.ext hlimit rfl]
    have hone (span : Span) :
        (Diagnostic.of .nestingTooDeep [] (some span)).aboutLimit = true := rfl
    exact (List.countP_cons_of_pos (hone _)).trans (congrArg (· + 1) h)

instance : warningOnce.IgnoresNames where
  refl _ _ := id
  trans h₁ h₂ h := h₂ (h₁ h)
  look _ _ _ := id
  read _ _ := id
  plain hm := ignores_warningOnce (by simp_all [Message.isPlain])
  giveUp _ _ := warnedOnce_reportLimit
  nest h := h
  rename _ _ _ _ := id
  aboutNames hm := ignores_warningOnce
    (by rintro h; simp [Message.aboutNames, h] at hm; revert hm; decide)
  forget _ _ _ := id
  aboutShape hm := ignores_warningOnce
    (by rintro h; simp [Message.aboutShape, h] at hm; revert hm; decide)

/-! ## Trees -/

/-- The node stands for a statement or a member, and is read one level deeper than what is around
it. -/
def NodeKind.nests : NodeKind → Bool
  | .module .. | .elseClause | .catchClause | .whenClause _ | .otherwiseClause |
      .menuOption _ => false
  | _ => true

theorem NodeKind.nests_of_form {kind : NodeKind} (h : kind.form? = none) : kind.nests = false := by
  cases kind <;> first | rfl | cases h

namespace Node

/-- No path from the node down holds more than `levels` nodes that count. -/
def Within (levels : Nat) (n : Node) : Prop :=
  ∀ path m, n.Reaches path m → (m :: path).countP (·.kind.nests) ≤ levels

theorem within_of_children {n : Node} (h : ∀ c ∈ n.children, c.Within levels) :
    n.Within (levels + 1) ∧ (n.kind.nests = false → n.Within levels) := by
  have hpath : ∀ path m, n.Reaches path m →
      (m :: path).countP (·.kind.nests) ≤ levels + if n.kind.nests then 1 else 0 := by
    intro path m hreach
    obtain ⟨rfl, rfl⟩ | ⟨c, hc, path', hreach', rfl⟩ := hreach.root_or_below
    · simp [List.countP_cons]
    · have hc := h c hc path' m hreach'
      rw [← List.cons_append, List.countP_append, List.countP_singleton]
      omega
  constructor
  · intro path m hreach
    have := hpath path m hreach
    split at this <;> omega
  · intro hn path m hreach
    simpa [hn] using hpath path m hreach

end Node

/-- What a judgment says about the depth of trees. -/
def Judgment.Shallow : Judgment → Prop
  | .rounds levels _ _ _ p _ | .clauseRounds levels _ _ _ _ p _ =>
    ∀ n ∈ p.nodes, n.Within levels
  | .body levels _ _ _ ns _ _ | .content levels _ _ _ ns _ _ => ∀ n ∈ ns, n.Within levels
  | .clause levels _ _ _ _ n _ _ => n.Within levels
  | .statement levels _ _ _ n _ => n.Within (levels + 1)

theorem Account.shallow {J : Judgment} (h : Account J) : J.Shallow := by
  induction h with
  | noRound | noClause => exact fun _ hn => absurd hn List.not_mem_nil
  | addStatement _ _ _ _ _ _ _ ihBefore ihStatement => exact Node.forall_insert ihStatement ihBefore
  | addClause _ _ _ _ _ ihBefore ihClause => exact Node.forall_insert ihClause ihBefore
  | @skip _ _ _ _ p _ _ q _ _ hskip ih =>
    have hnodes : q.nodes = p.nodes := hskip.nodes_eq
    exact fun n hn => ih n (hnodes ▸ hn)
  | skipClause _ _ _ _ _ ih | body _ _ _ ih | holdsBody _ _ ih | holdsClauses _ _ _ _ ih => exact ih
  | holdsBranches _ _ _ _ ihBody ihBranch => exact Node.forall_insert ihBranch ihBody
  | clause _ _ _ hform _ hclose ih =>
    obtain ⟨-, rfl, rfl⟩ := closeNode_eq hclose
    exact (Node.within_of_children ih).2 (NodeKind.nests_of_form hform)
  | leaf _ _ hclose =>
    obtain ⟨-, -, hchildren⟩ := closeStatement_eq hclose
    exact (Node.within_of_children (by simp [hchildren])).1
  | block _ _ _ _ _ _ _ _ hclose ih =>
    obtain ⟨-, -, rfl⟩ := closeNode_eq hclose
    exact (Node.within_of_children ih).1

/-! ## Whole texts -/

/-- Reading or skipping a statement is balanced; without levels left inside it, it is skipped. -/
theorem depth_bodyStep (left : Option Nat) (p : Progress) (step : Choice × Nat) (s : ParseState) :
    ((bodyStep (left.map fun levels => formWith levels (bodyAt levels)) ctx region p step).run
      s).2.nesting.depth = s.nesting.depth := by
  have hstep : Has balanced (left.elim 0 (· + 1))
      (bodyStep (left.map fun levels => formWith levels (bodyAt levels)) ctx region p step) := by
    refine has_bodyStep region ?_ p step
    cases left with
    | none => exact nofun
    | some levels =>
      rintro parse ⟨⟩
      exact ⟨levels, rfl, fun _ _ _ _ => inferInstance⟩
  exact (hstep.has s).1

/-- Scanning says nothing about nesting. -/
theorem ParseState.At.countP_aboutLimit (h : At text s) :
    s.diagnostics.countP (·.aboutLimit) = s.reports.countP (·.aboutLimit) := by
  have hperm := h.perm_filter (p := (·.aboutLimit)) fun d hd => by
    obtain ⟨m, hm, args, span, rfl⟩ := hd
    obtain rfl | rfl | rfl | rfl := hm <;> rfl
  rw [List.countP_eq_length_filter, hperm.length_eq, List.countP_eq_length_filter]

/-- What reading a whole text makes of the limit, with the last state, what is said, and the nodes
at the top: the counter was never beyond the limit, of which there is at most one warning, and no
path down a node holds more statements and members than the limit allows. -/
structure KeepsLimit (s : ParseState) (ds : List Diagnostic) (ns : List Node) : Prop where
  deepest_le : s.nesting.deepest ≤ maxNesting
  warned_once : ds.countP (·.aboutLimit) ≤ 1
  within : ∀ n ∈ ns, n.Within maxNesting

/-- A text that is read with both properties from its start keeps the limit, if its nodes do. -/
theorem keepsLimit_of_has {p : Parser α} {options : ParseOptions}
    (hbalanced : p.Has balanced maxNesting)
    (hwarning : p.Has warningOnce maxNesting) (hrun : (p.run (.ofText options.mode text)).2 = s)
    (hat : At text s) (hds : ds = options.placed s.diagnostics)
    (hns : ∀ n ∈ ns, n.Within maxNesting) : KeepsLimit s ds ns where
  deepest_le := by
    have hdeep := (hbalanced.has (.ofText options.mode text)).2
    rw [hrun] at hdeep
    simpa [ParseState.ofText] using hdeep
  warned_once := by
    have honce : s.WarnedOnce := hrun ▸ hwarning.has (.ofText options.mode text) rfl
    rw [hds, options.countP_placed _ fun _ _ => rfl, hat.countP_aboutLimit, honce]
    split <;> omega
  within := hns

theorem keepsLimit_parseModule (text : String) (options : ParseOptions) :
    KeepsLimit ((moduleNode options.version).run (.ofText options.mode text)).2
      (parseModule text options).diagnostics [(parseModule text options).module] := by
  obtain ⟨s, stop, hbody, hrun, -, hform, -, hdiagnostics⟩ := account_parseModule text options
  have := ignores_warningOnce (m := .unexpectedMember) (by decide)
  rw [hrun]
  refine keepsLimit_of_has (has_moduleNode options.version) (has_moduleNode options.version) hrun
    (hbody.later.onward (at_ofText options.mode text)).1.read.1 hdiagnostics ?_
  exact List.forall_mem_singleton.mpr
    ((Node.within_of_children hbody.shallow).2 (NodeKind.nests_of_form hform))

theorem keepsLimit_parseStatements (text : String) (options : ParseOptions) :
    KeepsLimit ((snippet options.version).run (.ofText options.mode text)).2
      (parseStatements text options).diagnostics (parseStatements text options).statements := by
  have hbody := accountsBodies maxNesting (.snippet options.version) {} (.ofText options.mode text)
  have hbalanced := (has_bodyAt (R := balanced) maxNesting).has (.snippet options.version)
    {} inferInstance
  have hwarning := (has_bodyAt (R := warningOnce) maxNesting).has (.snippet options.version)
    {} inferInstance
  exact keepsLimit_of_has hbalanced hwarning rfl
    (hbody.later.onward (at_ofText options.mode text)).1 rfl
    hbody.shallow

/-- The counter of nesting is balanced and keeps the limit: reading an expression, choosing a
statement and reading or skipping it leave the counter where it was; while a module, or statements
that stand alone, are read it is never beyond the limit, of which there is at most one warning; and
no path of the trees holds more statements and members than the limit allows. -/
theorem nesting_balanced (text : String) (options : ParseOptions) :
    (∀ levels s, ((expression? levels).run s).2.nesting.depth = s.nesting.depth ∧
      ((expectExpression levels).run s).2.nesting.depth = s.nesting.depth) ∧
    (∀ atLimit ctx region s,
      ((bodyGuard atLimit ctx region).run s).2.nesting.depth = s.nesting.depth) ∧
    (∀ (left : Option Nat) ctx region p step s,
      ((bodyStep (left.map fun levels => formWith levels (bodyAt levels)) ctx region p step).run
        s).2.nesting.depth = s.nesting.depth) ∧
    KeepsLimit ((moduleNode options.version).run (.ofText options.mode text)).2
      (parseModule text options).diagnostics [(parseModule text options).module] ∧
    KeepsLimit ((snippet options.version).run (.ofText options.mode text)).2
      (parseStatements text options).diagnostics (parseStatements text options).statements := by
  refine ⟨fun levels s => ⟨?_, ?_⟩, fun atLimit ctx region s => ?_,
    fun left ctx region p step s => ?_,
    keepsLimit_parseModule text options, keepsLimit_parseStatements text options⟩
  · exact (Has.has (R := balanced) (l := levels) (p := expression? levels) s).1
  · exact (Has.has (R := balanced) (l := levels) (p := expectExpression levels) s).1
  · exact depth_bodyGuard rfl
  · exact depth_bodyStep left p step s

end FourGL
