import FourGL.Proofs.Grammar.Reports
import FourGL.Proofs.Tree.Extents

/-!
# Ends of blocks

A block either ends with END and its keyword, or it is reported once that this is missing, and then
the text goes on with something that ends the block: the end of the text, a word that opens another
part, or the END of an enclosing block. An END that closes nothing never has the keyword of a block
around it.
-/

namespace FourGL

open FourGL.Parser FourGL.ParseState

/-- Only stop words stop a body in the context. -/
def Context.StopsAtWords (ctx : Context) : Prop := ctx.stops ⊆ stopWords.map .keyword

namespace Node

/-- The last two tokens of the node are END and the keyword. -/
def ClosedBy (text : String) (k : Keyword) (n : Node) : Prop :=
  ∃ before e w after, tokens .default text = before ++ e :: w :: after ∧
    e.kind = .keyword .END ∧ w.kind = .keyword k ∧
    n.extent.headerStop ≤ e.start ∧ w.stop = n.stop

/-- The first token at or behind the end of the node of keyword `k` is the end of the text, a stop
word, or an END behind which a word of `outer` follows. -/
def StoppedBefore (text : String) (outer : List Kind) (k : Keyword) (n : Node) : Prop :=
  ∃ t ts, (tokens .default text).dropWhile (fun t => t.start < n.stop) = t :: ts ∧
    (t.kind = .endOfFile ∨ t.kind ∈ Context.stopWords.map Kind.keyword ∨
      t.kind = .keyword .END ∧ ∃ u us, ts = u :: us ∧ u.kind ≠ .keyword k ∧
      u.kind ∈ outer)

/-- The diagnostic says about the header of the node that its END is missing. -/
def missesEnd (n : Node) (d : Diagnostic) : Bool :=
  d.code == Message.unterminatedBlock.code && d.span == some n.extent.header

/-- The keywords of the blocks among nodes. -/
def blockWords (ns : List Node) : List Kind := ns.filterMap fun n => n.kind.block?.map Kind.keyword

theorem start_of_missesEnd {n : Node} {d : Diagnostic} (h : n.missesEnd d = true) :
    d.AboutEnd ∧ d.start = n.start := by
  obtain ⟨hcode, hspan⟩ := Bool.and_eq_true_iff.mp h
  refine ⟨.inl (by simpa using hcode), ?_⟩
  rw [Diagnostic.start, show d.span = some n.extent.header by simpa using hspan]
  rfl

/-- How the block of a keyword ends, and what is said about it. -/
structure Settled (text : String) (outer : List Kind) (ds : List Diagnostic) (k : Keyword)
    (n : Node) : Prop where
  start_lt : n.start < n.extent.headerStop
  headerStop_le : n.extent.headerStop ≤ n.stop
  ended : n.ClosedBy text k ∧ ds.countP n.missesEnd = 0 ∨
    ds.countP n.missesEnd = 1 ∧ n.StoppedBefore text outer k
  not_stray : ∀ d ∈ ds, d.code = Message.unexpectedEnd.code →
    d.message = Message.unexpectedEnd.fill [k.text] →
    ¬ (n.extent.headerStop ≤ d.start ∧ d.start < n.stop)

/-- What is said about ends elsewhere does not concern a block. -/
theorem countP_missesEnd_eq_zero {n : Node} (hlt : n.start < n.stop) {ds : List Diagnostic}
    (h : ∀ d ∈ ds, d.AboutEnd → d.start < n.start ∨ n.stop ≤ d.start) :
    ds.countP n.missesEnd = 0 := by
  refine List.countP_eq_zero.mpr fun d hd hmisses => ?_
  obtain ⟨habout, hstart⟩ := start_of_missesEnd hmisses
  obtain hd | hd := h d hd habout <;> omega

theorem Settled.append {n : Node} (h : n.Settled text outer ds k) (ds₁ ds₂ : List Diagnostic)
    (h₁ : ∀ d ∈ ds₁, d.AboutEnd → d.start < n.start ∨ n.stop ≤ d.start)
    (h₂ : ∀ d ∈ ds₂, d.AboutEnd → d.start < n.start ∨ n.stop ≤ d.start) :
    n.Settled text outer (ds₁ ++ ds ++ ds₂) k := by
  have hstart := h.start_lt
  have hstop := h.headerStop_le
  have hlt : n.start < n.stop := by omega
  refine ⟨hstart, hstop, ?_, fun d hd hcode hmessage hin => ?_⟩
  · rw [List.countP_append, List.countP_append, countP_missesEnd_eq_zero hlt h₁,
      countP_missesEnd_eq_zero hlt h₂, Nat.zero_add, Nat.add_zero]
    exact h.ended
  · obtain hd | hd := List.mem_append.mp hd
    · obtain hd | hd := List.mem_append.mp hd
      · obtain hout | hout := h₁ d hd (.inr hcode) <;> omega
      · exact h.not_stray d hd hcode hmessage hin
    · obtain hout | hout := h₂ d hd (.inr hcode) <;> omega

/-- Every block at or below a node is settled; `ends` are the words that close blocks around it. -/
def AllSettled (text : String) (ends : List Kind) (ds : List Diagnostic) (n : Node) : Prop :=
  ∀ path m k, n.Reaches path m → m.kind.block? = some k →
    m.Settled text (blockWords path ++ ends) ds k

theorem AllSettled.append {n : Node} (h : n.AllSettled text ends ds) (hplaced : n.AllPlaced length)
    (ds₁ ds₂ : List Diagnostic)
    (h₁ : ∀ d ∈ ds₁, d.AboutEnd → d.start < n.start ∨ n.stop ≤ d.start)
    (h₂ : ∀ d ∈ ds₂, d.AboutEnd → d.start < n.start ∨ n.stop ≤ d.start) :
    n.AllSettled text ends (ds₁ ++ ds ++ ds₂) := by
  intro path m k hreach hkind
  obtain ⟨hstart, hstop⟩ := hreach.within hplaced
  refine (h path m k hreach hkind).append ds₁ ds₂ (fun d hd habout => ?_)
    (fun d hd habout => ?_)
  · obtain hout | hout := h₁ d hd habout <;> omega
  · obtain hout | hout := h₂ d hd habout <;> omega

theorem AllSettled.quiet {n : Node} (h : n.AllSettled text ends ds) (ds₁ ds₂ : List Diagnostic)
    (h₁ : ∀ d ∈ ds₁, ¬ d.AboutEnd) (h₂ : ∀ d ∈ ds₂, ¬ d.AboutEnd) :
    n.AllSettled text ends (ds₁ ++ ds ++ ds₂) := by
  intro path m k hreach hkind
  exact (h path m k hreach hkind).append ds₁ ds₂ (fun d hd habout => absurd habout (h₁ d hd))
    (fun d hd habout => absurd habout (h₂ d hd))

end Node

/-! ## What is said while nodes are read -/

/-- What is said about ends of blocks concerns places between two offsets, and no END that closes
nothing has a word of `ends` behind it. -/
structure Diagnostic.Between (ends : List Kind) (lo hi : Nat) (ds : List Diagnostic) : Prop where
  inside : ∀ d ∈ ds, d.AboutEnd → lo ≤ d.start ∧ d.start < hi
  stray : ∀ d ∈ ds, d.code = Message.unexpectedEnd.code →
    ∃ w : Keyword, .keyword w ∉ ends ∧ d.message = Message.unexpectedEnd.fill [w.text]

open Diagnostic (Between)

namespace Diagnostic.Between

theorem of_quiet {ds : List Diagnostic} (h : ∀ d ∈ ds, ¬ d.AboutEnd) (ends : List Kind)
    (lo hi : Nat) : Between ends lo hi ds :=
  ⟨fun d hd habout => absurd habout (h d hd), fun d hd hcode => absurd (.inr hcode) (h d hd)⟩

theorem mono {ds : List Diagnostic} (h : Between ends lo hi ds) (hends : ends' ⊆ ends)
    (hlo : lo' ≤ lo) (hhi : hi ≤ hi') : Between ends' lo' hi' ds := by
  refine ⟨fun d hd habout => ?_, fun d hd hcode => ?_⟩
  · have hin := h.inside d hd habout
    omega
  · obtain ⟨w, hw, hmessage⟩ := h.stray d hd hcode
    exact ⟨w, fun hmem => hw (hends hmem), hmessage⟩

theorem append {ds₁ ds₂ : List Diagnostic} (h₁ : Between ends lo hi ds₁)
    (h₂ : Between ends lo hi ds₂) : Between ends lo hi (ds₁ ++ ds₂) := by
  refine ⟨fun d hd => ?_, fun d hd => ?_⟩
  · exact (List.mem_append.mp hd).elim (h₁.inside d) (h₂.inside d)
  · exact (List.mem_append.mp hd).elim (h₁.stray d) (h₂.stray d)

end Diagnostic.Between

/-- A block is settled by what is said behind its header and, in `extra`, about the header
itself. -/
theorem Node.Settled.of_between {n : Node} (hstart : n.start < n.extent.headerStop)
    (hstop : n.extent.headerStop ≤ n.stop)
    (hbetween : Between (.keyword k :: ends) n.extent.headerStop hi ds) {extra : List Diagnostic}
    (hextra : ∀ d ∈ extra, d.code = Message.unterminatedBlock.code)
    (hends : n.ClosedBy text k ∧ extra.countP n.missesEnd = 0 ∨
      extra.countP n.missesEnd = 1 ∧ n.StoppedBefore text ends k) :
    n.Settled text ends (extra ++ ds) k := by
  refine ⟨hstart, hstop, ?_, fun d hd hcode hmessage _ => ?_⟩
  · have hcount : ds.countP n.missesEnd = 0 := by
      refine List.countP_eq_zero.mpr fun d hd hmisses => ?_
      obtain ⟨habout, hstartEq⟩ := start_of_missesEnd hmisses
      have hin := hbetween.inside d hd habout
      omega
    rw [List.countP_append, hcount]
    exact hends
  · obtain hd | hd := List.mem_append.mp hd
    · rw [hextra d hd] at hcode
      cases hcode
    · -- The word behind such an END closes none of the blocks around it, so it is not `k`.
      obtain ⟨w, hw, hmessage'⟩ := hbetween.stray d hd hcode
      obtain rfl := Message.fill_unexpectedEnd_inj (hmessage'.symm.trans hmessage)
      exact hw (List.mem_cons_self ..)

/-- Between the states the nodes are read; what is said meanwhile about ends of blocks starts at
`lo` or behind it, and it settles the blocks among the nodes. -/
def Told (text : String) (ends : List Kind) (lo : Nat) (s t : ParseState) (ns : List Node) : Prop :=
  ∃ new, t.reports = new ++ s.reports ∧ Between ends lo t.place new ∧
    ∀ n ∈ ns, n.AllSettled text ends new

namespace Told

theorem of_quiet (h : Quiet s t) (text : String) (ends : List Kind) (lo : Nat) :
    Told text ends lo s t [] := by
  obtain ⟨new, hnew, hquiet⟩ := h
  exact ⟨new, hnew, .of_quiet hquiet .., by simp⟩

theorem before_quiet (h : Told text ends lo s t ns) (hquiet : Quiet t u)
    (hle : t.place ≤ u.place) :
    Told text ends lo s u ns := by
  obtain ⟨new, hnew, hbetween, hsettled⟩ := h
  obtain ⟨more, hmore, hquiet⟩ := hquiet
  refine ⟨more ++ new, by rw [hmore, hnew, List.append_assoc], ?_, fun n hn => ?_⟩
  · exact (Between.of_quiet hquiet ..).append (hbetween.mono (fun _ => id) (Nat.le_refl _) hle)
  · simpa using (hsettled n hn).quiet more [] hquiet (by simp)

theorem after_quiet (hquiet : Quiet s t) (h : Told text ends lo t u ns) :
    Told text ends lo s u ns := by
  obtain ⟨new, hnew, hbetween, hsettled⟩ := h
  obtain ⟨more, hmore, hquiet⟩ := hquiet
  refine ⟨new ++ more, by rw [hnew, hmore, List.append_assoc], ?_, fun n hn => ?_⟩
  · exact hbetween.append (.of_quiet hquiet ..)
  · simpa using (hsettled n hn).quiet [] more (by simp) hquiet

/-- Nodes that are read one behind the other do not concern each other. -/
theorem append (h₁ : Told text ends lo s t ns) (h₂ : Told text ends mid t u ms)
    (hlo : lo ≤ mid)
    (hu : t.place ≤ u.place) (hns : ∀ n ∈ ns, n.AllPlaced text.length ∧ n.stop ≤ mid)
    (hms : ∀ n ∈ ms, n.AllPlaced text.length ∧ t.place ≤ n.start) :
    Told text ends lo s u (ns ++ ms) := by
  obtain ⟨new₁, hnew₁, hbetween₁, hsettled₁⟩ := h₁
  obtain ⟨new₂, hnew₂, hbetween₂, hsettled₂⟩ := h₂
  refine ⟨new₂ ++ new₁, by rw [hnew₂, hnew₁, List.append_assoc], ?_, fun n hn => ?_⟩
  · exact (hbetween₂.mono (fun _ => id) hlo (Nat.le_refl _)).append
      (hbetween₁.mono (fun _ => id) (Nat.le_refl _) hu)
  · obtain hn | hn := List.mem_append.mp hn
    · obtain ⟨hplaced, hstop⟩ := hns n hn
      have hout : ∀ d ∈ new₂, d.AboutEnd → d.start < n.start ∨ n.stop ≤ d.start := by
        intro d hd habout
        have hin := hbetween₂.inside d hd habout
        omega
      simpa using (hsettled₁ n hn).append hplaced new₂ [] hout (by simp)
    · obtain ⟨hplaced, hstart⟩ := hms n hn
      have hout : ∀ d ∈ new₁, d.AboutEnd → d.start < n.start ∨ n.stop ≤ d.start := by
        intro d hd habout
        have hin := hbetween₁.inside d hd habout
        omega
      simpa using (hsettled₂ n hn).append hplaced [] new₁ (by simp) hout

/-- The node around nodes, if it is no block. -/
theorem close {ends : List Kind} (h : Told text ends header s t ns)
    (hclosed : Closed o header kind ns t n) (hkind : kind.block? = none)
    (hstart : o.token.start ≤ header) : Told text ends o.token.start s t [n] := by
  obtain ⟨new, hnew, hbetween, hsettled⟩ := h
  refine ⟨new, hnew, hbetween.mono (fun _ => id) hstart (Nat.le_refl _), fun m hm => ?_⟩
  obtain rfl := List.mem_singleton.mp hm
  intro path m' k hreach hblock
  obtain ⟨rfl, rfl⟩ | ⟨c, hc, path', hreach', rfl⟩ := hreach.root_or_below
  · rw [hclosed.kind_eq, hkind] at hblock
    cases hblock
  · rw [show Node.blockWords (path' ++ [m]) = Node.blockWords path' by
      simp [Node.blockWords, hclosed.kind_eq, hkind]]
    exact hsettled c (hclosed.children_eq ▸ hc) path' m' k hreach' hblock

/-- Closing a block adds at most one report, about its header. -/
theorem reports_of_closing {t : ParseState} (hclosed : Closed o header kind ns u n)
    (hend : u.reports = t.reports ∧ n.ClosedBy text k ∨
      u.reports = .of .unterminatedBlock [k.text, "end " ++ k.text]
        (some (.between o.token.start header)) :: t.reports ∧ n.StoppedBefore text ends k) :
    ∃ extra, u.reports = extra ++ t.reports ∧
      (∀ d ∈ extra, d.code = Message.unterminatedBlock.code ∧ d.start = n.start) ∧
      (n.ClosedBy text k ∧ extra.countP n.missesEnd = 0 ∨
        extra.countP n.missesEnd = 1 ∧ n.StoppedBefore text ends k) := by
  have hstart := hclosed.start_eq
  have hheader := hclosed.headerStop_eq
  obtain ⟨hreports, hclosedBy⟩ | ⟨hreports, hstopped⟩ := hend
  · exact ⟨[], hreports, by simp, .inl ⟨hclosedBy, rfl⟩⟩
  · refine ⟨[_], hreports, fun d hd => ?_, .inr ⟨?_, hstopped⟩⟩
    · obtain rfl := List.mem_singleton.mp hd
      exact ⟨rfl, hstart.symm⟩
    · have hmisses : n.missesEnd (.of .unterminatedBlock [k.text, "end " ++ k.text]
          (some (.between o.token.start header))) = true := by
        simp [Node.missesEnd, Diagnostic.of, Extent.header, ← hstart, ← hheader, Node.start]
      rw [List.countP_singleton, if_pos hmisses]

/-- The block around nodes, where its END has been read or is reported missing. -/
theorem closeBlock {ends : List Kind} (h : Told text (.keyword k :: ends) header s t ns)
    (hclosed : Closed o header kind ns u n) (hkind : kind.block? = some k)
    (hstart : o.token.start < header) (hheader : header ≤ t.place) (hu : t.place ≤ u.place)
    (hplaced : ∀ c ∈ ns, c.AllPlaced text.length ∧ header ≤ c.start)
    (hend : u.reports = t.reports ∧ n.ClosedBy text k ∨
      u.reports = .of .unterminatedBlock [k.text, "end " ++ k.text]
        (some (.between o.token.start header)) :: t.reports ∧ n.StoppedBefore text ends k) :
    Told text ends o.token.start s u [n] := by
  obtain ⟨new, hnew, hbetween, hsettled⟩ := h
  have hstartEq := hclosed.start_eq
  have hheaderEq := hclosed.headerStop_eq
  have hstopEq := hclosed.stop_eq
  obtain ⟨extra, hextra, habout, hends⟩ := reports_of_closing hclosed hend
  refine ⟨extra ++ new, by rw [hextra, hnew, List.append_assoc], ⟨?_, ?_⟩, fun m hm => ?_⟩
  · intro d hd habout'
    obtain hd | hd := List.mem_append.mp hd
    · have := (habout d hd).2
      omega
    · have := hbetween.inside d hd habout'
      omega
  · intro d hd hcode
    obtain hd | hd := List.mem_append.mp hd
    · rw [(habout d hd).1] at hcode
      cases hcode
    · obtain ⟨w, hw, hmessage⟩ := hbetween.stray d hd hcode
      exact ⟨w, fun hmem => hw (List.mem_cons_of_mem _ hmem), hmessage⟩
  · obtain rfl := List.mem_singleton.mp hm
    intro path m' j hreach hblock
    obtain ⟨rfl, rfl⟩ | ⟨c, hc, path', hreach', rfl⟩ := hreach.root_or_below
    · obtain rfl : k = j := by simpa [hclosed.kind_eq, hkind] using hblock
      rw [← hheaderEq] at hbetween
      have hlt : m'.start < m'.extent.headerStop := by omega
      have hle : m'.extent.headerStop ≤ m'.stop := by omega
      exact .of_between hlt hle hbetween (fun d hd => (habout d hd).1) hends
    · rw [hclosed.children_eq] at hc
      obtain ⟨hplaced, hlo⟩ := hplaced c hc
      have hout : ∀ d ∈ extra, d.AboutEnd → d.start < c.start ∨ c.stop ≤ d.start := by
        intro d hd _
        have := (habout d hd).2
        omega
      have hsettled :=
        (hsettled c hc).append hplaced extra [] hout (by simp) path' m' j hreach' hblock
      simpa [Node.blockWords, hclosed.kind_eq, hkind] using hsettled

/-- One more node is read behind others. -/
theorem add (h : Told text ends s.place s t ns) (hlaid : Laid text s t ns)
    (honward : Onward text t u) (hquiet : Quiet t u) (hopens : Opens o u)
    (hstart : t.place ≤ o.token.start) (hspans : Spans text o u v n)
    (hnode : Told text ends o.token.start u v [n]) :
    Told text ends s.place s v (n.insert ns) := by
  obtain ⟨happend, -⟩ := hlaid.add honward hopens hstart hspans
    ⟨hspans.onward.1, Nat.le_refl _⟩
  rw [show n.insert ns = ns ++ [n] from happend]
  refine h.append (hnode.after_quiet hquiet) (Nat.le_trans hlaid.1.2 hstart)
    (Nat.le_trans honward.2 hspans.onward.2) (fun m hm => ?_) (fun m hm => ?_)
  · exact ⟨hlaid.2.placed m hm, Nat.le_trans (hlaid.2.inside m hm).2.2 hstart⟩
  · obtain rfl := List.mem_singleton.mp hm
    exact ⟨hspans.placed, hspans.start_eq ▸ hstart⟩

/-- Something is read behind nodes that adds none. -/
theorem skip (h : Told text ends s.place s t ns) (hlaid : Laid text s t ns)
    (honward : Onward text t u) (hskip : Told text ends t.place t u []) :
    Told text ends s.place s u ns := by
  rw [← List.append_nil ns]
  refine h.append hskip hlaid.1.2 honward.2 (fun m hm => ?_) (by simp)
  exact ⟨hlaid.2.placed m hm, (hlaid.2.inside m hm).2.2⟩

end Told

theorem told_skipUnexpected {m : Message} (hm : m ∈ quietMessages) {ctx : Context}
    (hat : At text s) (hpass : Passes ctx terminator s) (hlook : Looks s t)
    (h : (skipUnexpected m isFirst).run t.read = ((), u)) :
    Told text ctx.ends s.place s u [] := by
  obtain hquiet | ⟨w, span, hw, hlo, hhi, hreports⟩ := skipped_cases hm hat hpass hlook h
  · exact .of_quiet hquiet ..
  · refine ⟨[_], hreports, ⟨fun d hd _ => ?_, fun d hd _ => ?_⟩, by simp⟩
    · obtain rfl := List.mem_singleton.mp hd
      exact ⟨hlo, hhi⟩
    · obtain rfl := List.mem_singleton.mp hd
      exact ⟨w, hw, rfl⟩

theorem told_skip {ctx : Context} {region : Region} (hregion : region.unexpected ∈ quietMessages)
    {a b : Progress × ParseState} (h : Skip atLimit ctx region a b) (hat : At text a.2) :
    Told text ctx.ends a.2.place a.2 b.2 [] := by
  cases h with
  | @unavailable u p f s t hchoice hreport =>
    have hreported := reportsOnly_report (Set.mem_singleton Message.requiresVersion)
      [f.name, f.version.render] t.read.input.last.span
    have hread : Quiet t t.read := .of_eq rfl
    have hquiet := hreported.quiet (Set.singleton_subset_iff.mpr ⟨by decide, by decide⟩) hreport
    exact .of_quiet (hchoice.looks.quiet.trans (hread.trans hquiet)) ..
  | @tooDeep u p s t hchoice hlimit =>
    have hquiet :=
      (reportsOnly_reportLimit phraseMessages_subset).quiet statementMessages_subset_quiet hlimit
    have hread : Quiet u u.read := .of_eq rfl
    exact .of_quiet (hchoice.looks.quiet.trans (hquiet.trans hread)) ..
  | unexpected hchoice hskip =>
    exact told_skipUnexpected hregion hat hchoice.passes hchoice.looks hskip

/-- Where the body of a block stops without its END, the text goes on with what ends the block. -/
theorem stoppedBefore_of_stops {ctx inner : Context} (hat : At text s)
    (hinside : ctx.Inside k inner) (hstops : ctx.StopsAtWords)
    (h : Stops inner (some (.keyword k)) s stop) (hne : stop ≠ .terminator) {n : Node}
    (hn : n.stop = s.place) : n.StoppedBefore text ctx.ends k := by
  obtain ⟨t, ts, hdrop, hfirst, hsecond⟩ := hat.dropWhile_tokens
  refine ⟨t, ts, hn ▸ hdrop, ?_⟩
  rw [hfirst]
  cases h with
  | endOfFile hend => exact .inl hend
  | terminator => exact absurd rfl hne
  | ancestorEnd hend hterm hmem =>
    obtain ⟨u, us, hts, hu⟩ := hsecond (by rw [hend]; exact Kind.noConfusion)
    rw [hinside.ends_eq, List.mem_cons] at hmem
    refine .inr (.inr ⟨hend, u, us, hts, ?_, ?_⟩)
    · exact fun hk => hterm (congrArg some (hk.symm.trans hu))
    · exact hu ▸ hmem.resolve_left fun hk => hterm (congrArg some hk.symm)
  | stopToken hmem => exact .inr (.inl (hinside.stops_subset hstops hmem))

/-- How a block ends behind what it holds. -/
theorem ends_of_closeBlock {ctx inner : Context} (hat : At text s) (hinside : ctx.Inside k inner)
    (hstops : ctx.StopsAtWords)
    (hstop : Stops inner (some (.keyword k)) s stop) (hstays : Stays s t)
    (h : (closeBlock o header k stop).run t = ((), u)) (hheader : header ≤ s.place)
    (hclosed : Closed o header kind ns u n) :
    u.reports = t.reports ∧ n.ClosedBy text k ∨
      u.reports = .of .unterminatedBlock [k.text, "end " ++ k.text]
        (some (.between o.token.start header)) :: t.reports ∧
        n.StoppedBefore text ctx.ends k := by
  obtain ⟨rfl, rfl⟩ | ⟨hne, hinput, hreports⟩ := closeBlock_cases h
  · cases hstop with
    | terminator hend hterm =>
      have hword : t.kindAt 2 = .keyword k := (hstays.kindAt 2).trans (Option.some.inj hterm).symm
      obtain ⟨before, e, w, after, hsplit, he, hw, hstart, hwstop⟩ :=
        (hat.steps hstays.1).1.read_terminator ((hstays.kindAt 1).trans hend) hword
      refine .inl ⟨rfl, before, e, w, after, hsplit, he, hw, ?_, ?_⟩
      · rw [hclosed.headerStop_eq]
        exact Nat.le_trans hheader (hstays.place ▸ hstart)
      · rw [hwstop, hclosed.stop_eq]
  · refine .inr ⟨hreports, stoppedBefore_of_stops hat hinside hstops hstop hne ?_⟩
    rw [hclosed.stop_eq, ← hstays.place]
    exact congrArg (·.last.stop) hinput

/-- The block around what it holds, from its header to behind its END. -/
theorem told_block {ctx : Context} (hat : At text s) (hopens : Opens o s)
    (hheader : Header o s s₁ header) (hbefore : Stays s₁ s₂)
    (hcontent : Derivable (.content levels ctx k s₂ ns stop s₃)) (hbehind : Stays s₃ s₄)
    (hend : (closeBlock o header k stop).run s₄ = ((), s₅)) (hafter : Stays s₅ s₆)
    (hkind : kind.block? = some k) (hclose : (closeNode o header kind ns).run s₆ = (n, t))
    (hstops : ctx.StopsAtWords)
    (htold : Told text (.keyword k :: ctx.ends) s₂.place s₂ s₃ ns) :
    Told text ctx.ends o.token.start s t [n] := by
  have hon₁ := hat.steps hheader.steps
  have hon₂ := hon₁.1.steps hbefore.1
  obtain rfl := hopens.header_eq hat hheader
  obtain ⟨hlaid, -⟩ := laidOut_of_derivable hcontent hon₂.1
  have hon₄ := hlaid.1.1.steps hbehind.1
  have hon₅ := hon₄.1.run (reportsOnly_closeBlock o s₁.place k stop) hend
  have hplace₂ := hbefore.place
  have hplace₄ := hbehind.place
  have hplace₆ := hafter.place
  have hle : s₁.place ≤ s₃.place := hplace₂ ▸ hlaid.1.2
  obtain ⟨rfl, hclosed⟩ := closed_closeNode (by have := hon₅.2; omega) hclose
  have hclosed₅ : Closed o s₁.place kind ns s₅ n :=
    { hclosed with stop_eq := hclosed.stop_eq.trans hplace₆ }
  have hquiet : Quiet s s₂ :=
    (hheader.steps.quiet statementMessages_subset_quiet).trans hbefore.quiet
  have htold₄ := (htold.after_quiet hquiet).before_quiet hbehind.quiet hon₄.2
  rw [hplace₂] at htold₄
  obtain ⟨inner, hinside, hstop⟩ := hcontent.stops_content
  refine (htold₄.closeBlock hclosed₅ hkind ?_ ?_ hon₅.2 (fun c hc => ?_) ?_).before_quiet
    hafter.quiet (Nat.le_of_eq hplace₆.symm)
  · exact Nat.lt_of_lt_of_le hopens.start_lt hon₁.2
  · exact hplace₄.symm ▸ hle
  · exact ⟨hlaid.2.placed c hc, hplace₂ ▸ (hlaid.2.inside c hc).1⟩
  · exact ends_of_closeBlock hlaid.1.1 hinside hstops hstop hbehind hend hle hclosed₅

/-- What a judgment says about ends of blocks. -/
def Judgment.IsTold (text : String) : Judgment → Prop
  | .rounds _ ctx region s p t => At text s → ctx.StopsAtWords →
      region.unexpected ∈ quietMessages → Told text ctx.ends s.place s t p.nodes
  | .clauseRounds _ ctx inner _ s p t => At text s → inner.ends = ctx.ends →
      inner.StopsAtWords → Told text ctx.ends s.place s t p.nodes
  | .body _ ctx region s ns _ t => At text s → ctx.StopsAtWords →
      region.unexpected ∈ quietMessages → Told text ctx.ends s.place s t ns
  | .content _ ctx k s ns _ t => At text s → ctx.StopsAtWords →
      Told text (.keyword k :: ctx.ends) s.place s t ns
  | .clause _ ctx region o s n _ t => At text s → Opens o s → ctx.StopsAtWords →
      region.unexpected ∈ quietMessages → Told text ctx.ends o.token.start s t [n]
  | .statement _ ctx o s n t => At text s → Opens o s → ctx.StopsAtWords →
      Told text ctx.ends o.token.start s t [n]

theorem unexpectedToken_quiet : Message.unexpectedToken ∈ quietMessages :=
  ⟨by decide, by decide⟩

theorem isTold_of_derivable {J : Judgment} (h : Derivable J) : J.IsTold text := by
  -- What is said about a block lies inside it, so nothing that is read later unsettles it.
  induction h with
  | noRound => exact fun _ _ _ => .of_quiet (.of_eq rfl) ..
  | addStatement hbefore hchoice _ hstatement hjump hleave _ ihBefore ihStatement =>
    intro hat hstops hregion
    obtain ⟨hlaid, -⟩ := laidOut_of_derivable hbefore hat
    obtain ⟨honward, hopens, hstart⟩ :=
      hlaid.1.1.opens hchoice.passes.ne_endOfFile hchoice.looks _
    obtain ⟨hspans, -⟩ := laidOut_of_derivable hstatement honward.1 hopens
    have hread := hchoice.looks.quiet.trans (.of_eq rfl)
    have htold := (ihBefore hat hstops hregion).add hlaid honward hread hopens hstart hspans
      (ihStatement honward.1 hopens hstops)
    have hquiet := (reportsOnly_checkJump _ _).quiet
      (Set.singleton_subset_iff.mpr ⟨by decide, by decide⟩) hjump
    have hjumped := hspans.onward.1.run (reportsOnly_checkJump _ _) hjump
    exact htold.before_quiet (hquiet.trans hleave.quiet) (hjumped.trans (hjumped.1.looks hleave)).2
  | skip hbefore hskip ih =>
    intro hat hstops hregion
    obtain ⟨hlaid, -⟩ := laidOut_of_derivable hbefore hat
    have htold := (ih hat hstops hregion).skip hlaid (hskip.onward hlaid.1.1)
      (told_skip hregion hskip hlaid.1.1)
    exact hskip.nodes_eq ▸ htold
  | noClause => exact fun _ _ _ => .of_quiet (.of_eq rfl) ..
  | addClause hbefore hpass hlook _ hclause _ ihBefore ihClause =>
    intro hat hends hstops
    obtain ⟨hlaid, -⟩ := laidOut_of_derivable hbefore hat
    obtain ⟨honward, hopens, hstart⟩ := hlaid.1.1.opens hpass.ne_endOfFile hlook _
    obtain ⟨hspans, -⟩ := laidOut_of_derivable hclause honward.1 hopens
    have hread := hlook.quiet.trans (.of_eq rfl)
    exact (ihBefore hat hends hstops).add hlaid honward hread hopens hstart hspans
      (hends ▸ ihClause honward.1 hopens hstops unexpectedToken_quiet)
  | skipClause hbefore hpass hmem hlook hskip ih =>
    intro hat hends hstops
    obtain ⟨hlaid, -⟩ := laidOut_of_derivable hbefore hat
    have hread := (hlaid.1.1.looks hlook).trans (hlaid.1.1.looks hlook).1.read
    exact (ih hat hends hstops).skip hlaid
      (hread.trans (hread.1.run (reportsOnly_skipUnexpected _ _) hskip))
      (told_skipUnexpected unexpectedToken_quiet hlaid.1.1 hpass hlook hskip)
  | body hrounds hstop hlook ih =>
    intro hat hstops hregion
    exact (ih hat hstops hregion).before_quiet hlook.quiet (Nat.le_of_eq hlook.place.symm)
  | holdsBody hinside _ ih =>
    intro hat hstops
    exact hinside.ends_eq ▸ ih hat (hinside.stops_subset hstops) unexpectedToken_quiet
  | holdsBranches hfirst hbody hsecond _ hbranch _ ihBody ihBranch =>
    intro hat hstops
    obtain ⟨hlaid, -⟩ := laidOut_of_derivable hbody hat
    obtain ⟨honward, hopens, hstart⟩ :=
      hlaid.1.1.opens hbody.stops_body.ne_endOfFile (.refl _) _
    obtain ⟨hspans, -⟩ := laidOut_of_derivable hbranch honward.1 hopens
    have htold := ihBody hat (hfirst.stops_subset hstops) unexpectedToken_quiet
    have hnode := ihBranch honward.1 hopens (hsecond.stops_subset hstops) unexpectedToken_quiet
    rw [hfirst.ends_eq] at htold
    rw [hsecond.ends_eq] at hnode
    exact htold.add hlaid honward (.of_eq rfl) hopens hstart hspans hnode
  | holdsClauses houter hinside _ hstop hlook ih =>
    intro hat hstops
    have htold := ih hat (hinside.ends_eq.trans houter.ends_eq.symm) (hinside.stops_subset hstops)
    rw [houter.ends_eq] at htold
    exact htold.before_quiet hlook.quiet (Nat.le_of_eq hlook.place.symm)
  | clause hheader hbody hkind hclose ih =>
    intro hat hopens hstops hregion
    have honward := hat.steps hheader.steps
    obtain ⟨hlaid, -⟩ := laidOut_of_derivable hbody honward.1
    obtain rfl := hopens.header_eq hat hheader
    obtain ⟨rfl, hclosed⟩ := closed_closeNode hlaid.1.2 hclose
    have hquiet := hheader.steps.quiet statementMessages_subset_quiet
    exact ((ih honward.1 hstops hregion).after_quiet hquiet).close hclosed hkind
      (Nat.le_of_lt (Nat.lt_of_lt_of_le hopens.start_lt honward.2))
  | leaf hsteps hkind hclose =>
    intro hat hopens hstops
    have honward := hat.steps hsteps
    have hstart := Nat.le_of_lt (Nat.lt_of_lt_of_le hopens.start_lt honward.2)
    obtain ⟨rfl, hclosed⟩ := closed_closeStatement hstart hclose
    have hquiet := hsteps.quiet statementMessages_subset_quiet
    exact (Told.of_quiet hquiet ..).close hclosed hkind hstart
  | block hheader hbefore hcontent hbehind hend hafter hkind hclose ih =>
    intro hat hopens hstops
    exact told_block hat hopens hheader hbefore hcontent hbehind hend hafter hkind hclose hstops
      (ih (((hat.steps hheader.steps).1.steps hbefore.1).1) hstops)

/-! ## Modules -/

theorem Node.Settled.perm {n : Node} (h : n.Settled text outer ds k) (hperm : ds'.Perm ds) :
    n.Settled text outer ds' k := by
  refine ⟨h.start_lt, h.headerStop_le, ?_, fun d hd => h.not_stray d (hperm.mem_iff.mp hd)⟩
  rw [hperm.countP_eq]
  exact h.ended

/-- It does not matter in which file something is said. -/
theorem Node.Settled.placed {n : Node} (h : n.Settled text outer ds k) (options : ParseOptions) :
    n.Settled text outer (options.placed ds) k := by
  unfold ParseOptions.placed
  cases options.file with
  | none => exact h
  | some file =>
    refine ⟨h.start_lt, h.headerStop_le, ?_, fun d hd => ?_⟩
    · rw [List.countP_map]
      exact h.ended
    · obtain ⟨d', hd', rfl⟩ := List.mem_map.mp hd
      exact h.not_stray d' hd'

theorem not_aboutEnd_of_mem_issues (hat : At text s) : ∀ d ∈ s.input.issues, ¬ d.AboutEnd := by
  intro d hd
  obtain ⟨mode, hstream⟩ := hat.stream_eq
  obtain ⟨l, hl, hd⟩ := List.mem_flatMap.mp hd
  have hl : l ∈ Lexeme.ofText mode text := hstream ▸ List.mem_of_mem_take hl
  exact (Lexeme.isFrom_issues_ofText hl d hd).quiet scanMessages_subset_quiet

/-- Every block of a module is settled by the diagnostics of the module. -/
theorem settled_parseModule (text : String) (options : ParseOptions) :
    (parseModule text options).module.AllSettled text []
      (parseModule text options).diagnostics := by
  intro path n k hreach hblock
  obtain ⟨s, stop, -, hbody, -, -, -, hkind, hdiagnostics⟩ := derives_parseModule text options
  have hat := at_ofText options.mode text
  obtain ⟨hlaid, -⟩ := laidOut_of_derivable hbody hat
  obtain ⟨new, hnew, -, hsettled⟩ :=
    isTold_of_derivable hbody hat (List.nil_subset _) ⟨by decide, by decide⟩
  have hreports : s.read.reports = new := hnew.trans (List.append_nil new)
  obtain ⟨rfl, rfl⟩ | ⟨c, hc, path', hreach', rfl⟩ := hreach.root_or_below
  · rw [hkind] at hblock
    cases hblock
  · have hissues := not_aboutEnd_of_mem_issues hlaid.1.1.read.1
    have hperm : s.read.diagnostics.Perm (s.read.input.issues ++ new ++ []) := by
      unfold diagnostics Diagnostic.sorted
      rw [hreports, List.append_nil]
      exact (List.mergeSort_perm _ _).trans (List.Perm.append_left _ new.reverse_perm)
    rw [hdiagnostics, show Node.blockWords (path' ++ [(parseModule text options).module]) =
      Node.blockWords path' by simp [Node.blockWords, hkind]]
    have hsettled := (hsettled c hc).quiet _ [] hissues (by simp) path' n k hreach' hblock
    exact (hsettled.perm hperm).placed options

/-- A block of a module ends with END and its keyword, and nothing is said about that; or it is said
once that this is missing, and the text goes on behind the block with its own end, a stop word or
the END of another block around it. Nowhere behind the header of the block it is said that an END
with its keyword closes nothing. -/
theorem parseModule_blocks_end (text : String) (options : ParseOptions) {path : List Node}
    {n : Node} {k : Keyword} (hreach : (parseModule text options).module.Reaches path n)
    (hblock : n.kind.block? = some k) :
    Xor (n.ClosedBy text k ∧ (parseModule text options).diagnostics.countP n.missesEnd = 0)
        ((parseModule text options).diagnostics.countP n.missesEnd = 1 ∧
          n.StoppedBefore text (Node.blockWords path) k) ∧
      ∀ d ∈ (parseModule text options).diagnostics, d.code = Message.unexpectedEnd.code →
        d.message = Message.unexpectedEnd.fill [k.text] →
        ¬ (n.extent.headerStop ≤ d.start ∧ d.start < n.stop) := by
  have hsettled := settled_parseModule text options path n k hreach hblock
  rw [List.append_nil] at hsettled
  refine ⟨?_, hsettled.not_stray⟩
  obtain hclosed | hstopped := hsettled.ended
  · exact .inl ⟨hclosed, fun h => by have := hclosed.2; have := h.1; omega⟩
  · exact .inr ⟨hstopped, fun h => by have := hstopped.1; have := h.2; omega⟩

/-- An IF that the END of the routine around it leaves open. -/
theorem parseModule_blocks_end_open_if :
    ∃ path n, (parseModule "main if a then call f() end main" {}).module.Reaches path n ∧
      n.kind.block? = some .IF ∧
      (parseModule "main if a then call f() end main" {}).diagnostics.countP n.missesEnd = 1 ∧
      n.StoppedBefore "main if a then call f() end main" (Node.blockWords path) .IF := by
  have hfound : ∃ c ∈ (parseModule "main if a then call f() end main" {}).module.children,
      ∃ n ∈ c.children, n.kind.block? = some .IF ∧
        (parseModule "main if a then call f() end main" {}).diagnostics.countP n.missesEnd = 1 := by
    decide +kernel
  obtain ⟨c, hc, n, hn, hblock, hone⟩ := hfound
  have hreach := Node.Reaches.child (.child .root hc) hn
  refine ⟨_, n, hreach, hblock, ?_⟩
  obtain ⟨⟨⟨-, hzero⟩, -⟩ | ⟨hstopped, -⟩, -⟩ :=
    parseModule_blocks_end _ {} hreach hblock
  · exact absurd (hone.symm.trans hzero) Nat.one_ne_zero
  · exact hstopped

end FourGL
