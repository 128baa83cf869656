import FourGL.Proofs.Grammar.LocatedBodies
import FourGL.Proofs.Token.Faults
import FourGL.Proofs.Token.Spelling
import FourGL.Proofs.Tree.Completeness

/-!
# Diagnostics in source order

Parsing ends with everything seen, so that all that scanning has to say about a text is among its
diagnostics, beside what the parser has reported. They are sorted by where they start, and sorting
is stable (`Diagnostic.filter_sorted`). None of them leaves the text, since each of them is located
in it (`Locates`).
-/

namespace FourGL

open FourGL.Parser FourGL.ParseState

/-! ## Sorting -/

namespace Diagnostic

variable {ds : List Diagnostic}

/-- Order by start alone. -/
def startsBy (a b : Diagnostic) : Bool := a.start ≤ b.start

theorem startsBy_iff {a b : Diagnostic} : a.startsBy b = true ↔ a.start ≤ b.start :=
  decide_eq_true_iff

theorem startsBy_trans (a b c : Diagnostic) (hab : a.startsBy b = true)
    (hbc : b.startsBy c = true) : a.startsBy c = true :=
  startsBy_iff.mpr (Nat.le_trans (startsBy_iff.mp hab) (startsBy_iff.mp hbc))

theorem startsBy_total (a b : Diagnostic) : (a.startsBy b || b.startsBy a) = true := by
  simpa [startsBy] using Nat.le_total a.start b.start

/-- Where no file is named, only the start counts. -/
theorem sorted_eq (h : ∀ d ∈ ds, d.file = none) : sorted ds = ds.mergeSort startsBy := by
  have hle : ∀ a ∈ ds, ∀ b ∈ ds, notAfter a b = startsBy (id a) (id b) := by
    intro a ha b hb
    simp [notAfter, startsBy, h a ha, h b hb]
  simpa [sorted] using List.map_mergeSort hle

theorem pairwise_sorted (h : ∀ d ∈ ds, d.file = none) :
    (sorted ds).Pairwise fun a b => a.start ≤ b.start := by
  rw [sorted_eq h]
  exact (List.pairwise_mergeSort startsBy_trans startsBy_total ds).imp startsBy_iff.mp

/-- Diagnostics that start at one place keep their order. -/
theorem filter_sorted (h : ∀ d ∈ ds, d.file = none) (pos : Nat) :
    (sorted ds).filter (·.start == pos) = ds.filter (·.start == pos) := by
  let here (d : Diagnostic) : Bool := d.start == pos
  have hsame : (ds.filter here).Pairwise fun a b => a.startsBy b = true := by
    refine List.pairwise_of_forall_mem_list fun a ha b hb => ?_
    have ha : a.start = pos := beq_iff_eq.mp (List.mem_filter.mp ha).2
    have hb : b.start = pos := beq_iff_eq.mp (List.mem_filter.mp hb).2
    exact startsBy_iff.mpr (Nat.le_of_eq (ha.trans hb.symm))
  have hsub : (ds.filter here).Sublist ((sorted ds).filter here) := by
    have hsub := List.sublist_mergeSort startsBy_trans startsBy_total hsame List.filter_sublist
    rw [← sorted_eq h] at hsub
    simpa using hsub.filter here
  have hperm : ((sorted ds).filter here).Perm (ds.filter here) :=
    (List.mergeSort_perm ds notAfter).filter here
  exact (hsub.eq_of_length hperm.length_eq.symm).symm

end Diagnostic

/-! ## What scanning says -/

namespace Lexeme

/-- The lexemes of a text hold all that scanning says about it, whichever way it is scanned. -/
theorem flatMap_issues_ofText (mode mode' : ScanMode) (text : String) :
    (ofText mode text).flatMap (·.issues) = scanIssues mode' text := by
  have hdefault (mode : ScanMode) :
      (ofText mode text).flatMap (·.issues) = scanIssues .default text := by
    rw [scanIssues, ← map_scanned_ofText mode, List.flatMap_map]
    rfl
  cases mode' with
  | default => exact hdefault mode
  | verbatim =>
    obtain ⟨flags, hlast⟩ := (tiles_tokens_verbatim text).getLast?
    obtain ⟨s, hs, htoken⟩ :=
      Option.map_eq_some_iff.mp ((List.getLast?_map ..).symm.trans hlast)
    rw [hdefault mode, ← hdefault .verbatim]
    exact flatMap_issues_gather ⟨s, hs, by rw [htoken]; rfl⟩ [] []

end Lexeme

theorem Kind.isMeasured_fault? {k : Kind} {m : Message} (h : k.fault? = some m) :
    m.isMeasured = false := by
  unfold fault? at h
  split at h <;> cases h <;> rfl

/-- What scanning says is said about tokens. -/
theorem located_scanIssues (mode : ScanMode) (text : String) :
    ∀ d ∈ scanIssues mode text, d.Located text := by
  intro d hd
  rw [← Lexeme.flatMap_issues_ofText .default,
    Lexeme.flatMap_issues_ofText .default .verbatim] at hd
  obtain ⟨s, hs, hd⟩ := List.mem_flatMap.mp hd
  cases Scanner.marked_all 0 text.toList false s hs with
  | sound _ _ hissues => simp [hissues] at hd
  | faulty _ _ _ hkind hissues =>
    rw [hissues] at hd
    obtain rfl := List.mem_singleton.mp hd
    exact .token (Kind.isMeasured_fault? hkind) ⟨s.token, List.mem_map_of_mem hs, rfl⟩

/-! ## Located diagnostics -/

theorem bounds_of_mem_verbatim {text : String} {t : Token} (ht : t ∈ tokens .verbatim text) :
    t.start ≤ t.stop ∧ t.stop ≤ text.length := by
  obtain ⟨-, hle, hstop, -⟩ := (tiles_tokens_verbatim text).bounds ht
  rw [String.length_toList, Nat.zero_add] at hstop
  exact ⟨hle, hstop⟩

namespace Diagnostic.Located

variable {d : Diagnostic}

theorem file_eq (h : d.Located text) : d.file = none := by cases h <;> rfl

theorem inside (h : d.Located text) :
    ∃ span, d.span = some span ∧ span.start + span.length ≤ text.length := by
  cases h with
  | token _ hspan =>
    obtain ⟨t, ht, rfl⟩ := hspan
    obtain ⟨hle, hstop⟩ := bounds_of_mem_verbatim ht
    exact ⟨t.span, rfl, Nat.le_trans (Nat.le_of_eq (Span.stop_between hle)) hstop⟩
  | measured _ hlt hstop =>
    exact ⟨_, rfl, Nat.le_trans (Nat.le_of_eq (Span.stop_between (Nat.le_of_lt hlt))) hstop⟩

/-- A stretch that is not empty is measured from its start on. -/
theorem start_lt {start stop : Nat} (h : d.Located text) (hcode : d.code ∈ Message.measuredCodes)
    (hspan : d.span = some (.between start stop)) : start < stop := by
  cases h with
  | token hm =>
    have hcode : Message.isMeasured _ = true := List.contains_iff_mem.mpr hcode
    rw [hm] at hcode
    cases hcode
  | measured _ hlt =>
    obtain ⟨rfl, hlength⟩ := Span.mk.inj (Option.some.inj hspan)
    omega

theorem token_of_notMem (h : d.Located text) (hcode : d.code ∉ Message.measuredCodes) :
    ∃ t ∈ tokens .verbatim text, d.span = some t.span := by
  cases h with
  | token _ hspan =>
    obtain ⟨t, ht, rfl⟩ := hspan
    exact ⟨t, ht, rfl⟩
  | measured hm => exact absurd (List.contains_iff_mem.mp hm) hcode

end Diagnostic.Located

/-! ## Whole texts -/

/-- What parsing says about a text, where `reports` is what the parser reports one after the
other. -/
structure InSourceOrder (text : String) (options : ParseOptions) (reports ds : List Diagnostic) :
    Prop where
  /-- Everything is said about a stretch of the text. -/
  inside : ∀ d ∈ ds, ∃ span, d.span = some span ∧ span.start + span.length ≤ text.length
  sorted : ds.Pairwise fun a b => a.start ≤ b.start
  /-- At one place, what scanning says comes before the reports, each in its own order. -/
  grouped : ∀ pos, ds.filter (·.start == pos) = options.placed
    ((scanIssues options.mode text).filter (·.start == pos) ++ reports.filter (·.start == pos))
  /-- Whatever bounds a stretch is measured between, the second lies behind the first. -/
  measured : ∀ d ∈ ds, d.code ∈ Message.measuredCodes →
    ∀ start stop, d.span = some (.between start stop) → start < stop
  /-- All else is said about tokens. -/
  token : ∀ d ∈ ds, d.code ∉ Message.measuredCodes →
    ∃ t ∈ tokens .verbatim text, d.span = some t.span

theorem ParseOptions.of_mem_placed {options : ParseOptions} (h : d ∈ options.placed ds) :
    ∃ d' ∈ ds, d.span = d'.span ∧ d.code = d'.code := by
  unfold placed at h
  split at h
  · obtain ⟨d', hd', rfl⟩ := List.mem_map.mp h
    exact ⟨d', hd', rfl, rfl⟩
  · exact ⟨d, h, rfl, rfl⟩

/-- Where everything has been seen, and what has been reported is located in the text, all that
there is to say is in source order. -/
theorem inSourceOrder (options : ParseOptions) (h : Locates text pos s)
    (hseen : s.input.seenLexemes = Lexeme.ofText options.mode text) :
    InSourceOrder text options s.reports.reverse (options.placed s.diagnostics) := by
  have hissues : s.input.issues = scanIssues options.mode text := by
    rw [Lookahead.issues, hseen, Lexeme.flatMap_issues_ofText]
  have hlocated : ∀ d ∈ s.input.issues ++ s.reports.reverse, d.Located text := by
    have hreports : ∀ d ∈ s.reports.reverse, d.Located text := fun d hd =>
      h.reports d (List.mem_reverse.mp hd)
    exact List.forall_mem_append.mpr
      ⟨hissues ▸ located_scanIssues options.mode text, hreports⟩
  have hfile : ∀ d ∈ s.input.issues ++ s.reports.reverse, d.file = none :=
    fun d hd => (hlocated d hd).file_eq
  have hplaced : ∀ d ∈ options.placed s.diagnostics,
      ∃ d' : Diagnostic, d'.Located text ∧ d.span = d'.span ∧ d.code = d'.code := by
    intro d hd
    obtain ⟨d', hd', heq⟩ := ParseOptions.of_mem_placed hd
    exact ⟨d', hlocated d' (List.mem_mergeSort.mp hd'), heq⟩
  constructor
  case inside =>
    intro d hd
    obtain ⟨d', hd', hspan, -⟩ := hplaced d hd
    exact hspan ▸ hd'.inside
  case sorted =>
    have hsorted := Diagnostic.pairwise_sorted hfile
    unfold ParseOptions.placed
    split
    · exact List.pairwise_map.mpr hsorted
    · exact hsorted
  case grouped =>
    intro pos
    rw [options.filter_placed _ fun _ _ => rfl, ParseState.diagnostics,
      Diagnostic.filter_sorted hfile, List.filter_append, hissues]
  case measured =>
    intro d hd hcode start stop hbetween
    obtain ⟨d', hd', hspan, hcode'⟩ := hplaced d hd
    exact hd'.start_lt (hcode' ▸ hcode) (hspan ▸ hbetween)
  case token =>
    intro d hd hcode
    obtain ⟨d', hd', hspan, hcode'⟩ := hplaced d hd
    exact hspan ▸ hd'.token_of_notMem (hcode' ▸ hcode)

/-- Parsing ends a module where everything has been seen. -/
theorem seenLexemes_moduleNode (version : Version) (mode : ScanMode) (text : String) :
    ((moduleNode version).run (.ofText mode text)).2.input.seenLexemes =
      Lexeme.ofText mode text := by
  have hbody := accountsBodies maxNesting (.root version) .members (.ofText mode text)
  obtain ⟨-, hend⟩ := hbody.stops_body.at_end rfl rfl
  obtain ⟨ts, htokensRead⟩ := hbody.later
  have hrest := (htokensRead.onward (at_ofText _ text)).1.rest_read hend
  have hseen := ((Counted.ofText _ _).tokensRead htokensRead.read).seenLexemes_of_rest hrest
  exact hseen.trans htokensRead.read.stream_eq

/-- Statements that stand alone are read where everything has been seen, too. -/
theorem seenLexemes_snippet (version : Version) (mode : ScanMode) (text : String) :
    ((snippet version).run (.ofText mode text)).2.input.seenLexemes = Lexeme.ofText mode text := by
  obtain ⟨ns, t, hrun, -, hseen⟩ := run_snippet version mode text
  change ((bodyAt maxNesting (.snippet version) {}).run _).2.input.seenLexemes = _
  rwa [hrun]

/-- Everything that is said about a text is said about a stretch of it, in the order in which the
stretches start; at one place scanning comes first, and what scanning says and what parsing reports
keep their order. Wherever a stretch is taken between two bounds, the second is not before the
first. -/
theorem parse_diagnostics_inSourceOrder (text : String) (options : ParseOptions) :
    InSourceOrder text options
        ((moduleNode options.version).run (.ofText options.mode text)).2.reports.reverse
        (parseModule text options).diagnostics ∧
      InSourceOrder text options
        ((snippet options.version).run (.ofText options.mode text)).2.reports.reverse
        (parseStatements text options).diagnostics ∧
      (∀ mode, ∀ t ∈ tokens mode text, t.start ≤ t.stop) ∧
      (∀ start s, ∃ stop, start ≤ stop ∧
        (spanFrom start).run s = (.between start stop, s)) ∧
      ∀ o s, o.token.start ≤ ((headerStop o).run s).1 := by
  refine ⟨?_, ?_, fun mode t ht => ?_, fun start s => ?_, fun o s => Nat.le_max_right _ _⟩
  · exact inSourceOrder options (locates_moduleNode _ _ text) (seenLexemes_moduleNode _ _ text)
  · exact inSourceOrder options (locates_snippet _ _ text) (seenLexemes_snippet _ _ text)
  · cases mode with
    | verbatim => exact (bounds_of_mem_verbatim ht).1
    | default => exact (bounds_of_mem_tokens ht).1
  · exact ⟨_, Nat.le_max_right _ _, rfl⟩

end FourGL
