import FourGL.Proofs.Grammar.TokensRead
import FourGL.Proofs.Tree.Terminators

/-!
# Open blocks

While a block is open, an END that begins a line and names the keyword of the block is not passed
over: what is inside leaves it alone, and it closes the innermost open block of that keyword. Only
the headers that read on whatever comes, and texts that nest too deep, can take it away.
-/

namespace FourGL

open FourGL.Parser FourGL.ParseState

/-- The attributes of an output statement and the keys of a command are read whatever they are. -/
def NodeKind.takesAny : NodeKind → Bool
  | .output .. | .menuOption (.command ..) => true
  | _ => false

theorem NodeKind.reads_of_takesAny {kind : NodeKind} (h : kind.takesAny = false) :
    kind.reads = careful := by
  unfold reads
  split
  · cases h
  · cases h
  · rfl

theorem NodeKind.block?_ne {kind : NodeKind} (h : kind.block? = some k) :
    k ≠ .END ∧ k ≠ .RECORD := by
  cases kind <;> cases h <;> decide

/-- In the text an END begins a line, and the keyword of a block follows it. -/
structure ClosingPair (text : String) (k : Keyword) (e w : Token) : Prop where
  split : ∃ before after, tokens .default text = before ++ e :: w :: after
  end_eq : e.kind = .keyword .END
  beginsLine : e.lineBreakBefore = true
  word_eq : w.kind = .keyword k
  block : ∃ kind : NodeKind, kind.block? = some k

namespace ClosingPair

theorem start_lt (h : ClosingPair text k e w) : e.start < e.stop ∧ e.stop ≤ w.stop := by
  obtain ⟨before, after, htokens⟩ := h.split
  have he : e ∈ tokens .default text := by simp [htokens]
  have hw : w ∈ tokens .default text := by simp [htokens]
  have hpairwise := pairwise_tokens text
  rw [htokens, List.pairwise_append, List.pairwise_cons] at hpairwise
  have hle : e.stop ≤ w.start := hpairwise.2.1.1 w (by simp)
  have hne : e.kind ≠ .endOfFile := by
    rw [h.end_eq]
    exact Kind.noConfusion
  exact ⟨(bounds_of_mem_tokens he).2.2.1 hne, Nat.le_trans hle (bounds_of_mem_tokens hw).1⟩

end ClosingPair

/-! ## Before the pair -/

namespace ParseState

/-- The token is still to be read. -/
def Ahead (e : Token) (s : ParseState) : Prop := s.place ≤ e.start

theorem Ahead.of_input {s t : ParseState} (h : s.Ahead e) (hinput : t.input = s.input) :
    t.Ahead e := by
  unfold Ahead place
  rw [hinput]
  exact h

theorem Looks.ahead (h : Looks s t) (hs : s.Ahead e) : t.Ahead e := by
  unfold Ahead
  rw [h.place]
  exact hs

/-- The next two tokens are these. -/
def Meets (e w : Token) (s : ParseState) : Prop := s.input.tokenAt 1 = e ∧ s.input.tokenAt 2 = w

section

variable {text : String} {k : Keyword} {e w : Token} (hpair : ClosingPair text k e w)
include hpair

theorem Ahead.rest (h : s.Ahead e) (hat : At text s) :
    ∃ first after, s.input.rest.map (·.token) = first ++ e :: w :: after := by
  obtain ⟨done, hsplit, hdone⟩ := hat.split
  obtain ⟨before, after, htokens⟩ := hpair.split
  have hnotMem : e ∉ done := by
    intro hmem
    have hle := hdone e hmem
    have hlt := hpair.start_lt.1
    unfold Ahead at h
    omega
  obtain ⟨first, -, hrest⟩ | ⟨read, hread, hrest⟩ :=
    List.append_eq_append_iff.mp (hsplit.symm.trans htokens)
  · exact ⟨first, after, hrest⟩
  · cases read with
    | nil => exact ⟨[], after, hrest.symm⟩
    | cons x xs =>
      obtain ⟨rfl, -⟩ := List.cons.inj hrest
      exact absurd (by simp [hread]) hnotMem

/-- Reading one token leaves the pair ahead, unless it comes next. -/
theorem Ahead.meets_or_read (h : s.Ahead e) (hat : At text s) : s.Meets e w ∨ s.read.Ahead e := by
  obtain ⟨first, after, hrest⟩ := h.rest hpair hat
  cases hcons : s.input.rest with
  | nil => simp [hcons] at hrest
  | cons l ls =>
    rw [hcons, List.map_cons] at hrest
    cases first with
    | nil =>
      obtain ⟨rfl, hls⟩ := List.cons.inj hrest
      cases ls with
      | nil => cases hls
      | cons m ms =>
        obtain ⟨rfl, -⟩ := List.cons.inj hls
        exact .inl ⟨by simp [Lookahead.tokenAt, hcons], by simp [Lookahead.tokenAt, hcons]⟩
    | cons x xs =>
      obtain ⟨-, hls⟩ := List.cons.inj hrest
      obtain ⟨m, hm, rfl⟩ := List.mem_map.mp (show e ∈ ls.map (·.token) by simp [hls])
      exact .inr (hat.read.1.le_start m (by simp [ParseState.read, Lookahead.advance, hcons, hm]))

theorem Meets.atTerminator {s : ParseState} (h : s.Meets e w) : s.AtTerminator := by
  obtain ⟨kind, hblock⟩ := hpair.block
  refine ⟨?_, ?_, ?_⟩
  · rw [kindAt, h.1, hpair.end_eq]
  · rw [h.1, hpair.beginsLine]
  · rw [kindAt, h.2, hpair.word_eq]
    exact fun heq => (NodeKind.block?_ne hblock).2 (Kind.keyword.inj heq)

theorem Ahead.read_of_ne (h : s.Ahead e) (hat : At text s) (hne : s.kindAt 1 ≠ .keyword .END) :
    s.read.Ahead e := by
  refine (h.meets_or_read hpair hat).resolve_left fun hmeets => hne ?_
  rw [kindAt, hmeets.1, hpair.end_eq]

/-- Careful moves do not pass the pair unless the text nests too deep. -/
theorem Moves.ahead (hmoves : Moves careful M s t) (h : s.Ahead e) (hat : At text s) :
    t.Ahead e ∨ t.limitReported = true := by
  induction hmoves with
  | refl => exact .inl h
  | @tail t u hmoves hmove ih =>
    obtain hahead | hlimit := ih
    · cases hmove with
      | look | report | rename | nest => exact .inl hahead
      | limit => exact .inr rfl
      | read hcareful =>
        obtain hmeets | hread := hahead.meets_or_read hpair (hat.steps (Moves.steps hmoves)).1
        · exact .inr (hcareful (hmeets.atTerminator hpair))
        · exact .inl hread
    · exact .inr (hmove.later.limitReported hlimit)

/-- A body whose block the pair closes, or a block around that, does not begin a round with it. -/
theorem Ahead.read_of_passes {ctx : Context} (h : s.Ahead e) (hat : At text s)
    (hpass : Passes ctx terminator s) (hmem : .keyword k ∈ ctx.ends) (hlook : Looks s t) :
    t.read.Ahead e := by
  refine ((hlook.ahead h).meets_or_read hpair (hat.looks hlook).1).resolve_left fun hmeets => ?_
  have hend : s.kindAt 1 = .keyword .END := by
    rw [← hlook.kindAt, kindAt, hmeets.1, hpair.end_eq]
  have hword : s.kindAt 2 = .keyword k := by
    rw [← hlook.kindAt, kindAt, hmeets.2, hpair.word_eq]
  exact hpass.notMem_ends hend (hword ▸ hmem)

/-- A round that adds no node does not skip the pair either. -/
theorem Ahead.skip {ctx : Context} {region : Region} {a b : Progress × ParseState}
    (h : a.2.Ahead e) (hat : At text a.2) (hmem : .keyword k ∈ ctx.ends)
    (hskip : Skip atLimit ctx region a b) : b.2.Ahead e ∨ b.2.limitReported = true := by
  cases hskip with
  | unavailable hchoice hreport =>
    have hread := h.read_of_passes hpair hat hchoice.passes hmem hchoice.looks
    exact Moves.ahead hpair ((careful_report (Set.mem_univ _) _ _ _).of_run hreport) hread
      (hat.looks hchoice.looks).1.read.1
  | @tooDeep u p s t hchoice hlimit =>
    have hreported := limitReported_reportLimit t
    rw [hlimit] at hreported
    exact .inr hreported
  | unexpected hchoice hskip =>
    have hread := h.read_of_passes hpair hat hchoice.passes hmem hchoice.looks
    exact Moves.ahead hpair ((careful_skipUnexpected _ _ _).of_run hskip) hread
      (hat.looks hchoice.looks).1.read.1

/-- Closing a block leaves the pair ahead, or the block ends with it. -/
theorem Ahead.closeBlock {inner : Context} (h : s.Ahead e) (hat : At text s) (hj : j ≠ .END)
    (hstop : Stops inner (some (.keyword j)) s stop)
    (hend : (closeBlock o header j stop).run s = ((), t)) :
    t.Ahead e ∨ j = k ∧ t.place = w.stop ∧ t.reports = s.reports := by
  obtain ⟨rfl, rfl⟩ | ⟨-, hinput, -⟩ := closeBlock_cases hend
  · cases hstop with
    | terminator _ hword =>
      have hword : s.kindAt 2 = .keyword j := (Option.some.inj hword).symm
      obtain hmeets | hread := h.meets_or_read hpair hat
      · refine .inr ⟨?_, ?_, rfl⟩
        · rw [kindAt, hmeets.2, hpair.word_eq] at hword
          exact (Kind.keyword.inj hword).symm
        · rw [place, last_read, tokenAt_read, hmeets.2]
      · refine .inl (hread.read_of_ne hpair hat.read.1 ?_)
        rw [kindAt_read, hword]
        exact fun heq => hj (Kind.keyword.inj heq)
  · exact .inl (h.of_input hinput)

end

end ParseState

/-! ## What becomes of the pair -/

/-- Between the states it is not said that the END of the node is missing. -/
def ParseState.Clear (n : Node) (s t : ParseState) : Prop :=
  ∃ new, t.reports = new ++ s.reports ∧ new.countP n.missesEnd = 0

namespace ParseState

theorem Clear.refl (n : Node) (s : ParseState) : Clear n s s := ⟨[], rfl, rfl⟩

theorem Clear.trans {n : Node} (h₁ : Clear n s t) (h₂ : Clear n t u) : Clear n s u := by
  obtain ⟨new₁, heq₁, hcount₁⟩ := h₁
  obtain ⟨new₂, heq₂, hcount₂⟩ := h₂
  exact ⟨new₂ ++ new₁, by rw [heq₂, heq₁, List.append_assoc],
    by rw [List.countP_append, hcount₂, hcount₁]⟩

theorem Quiet.clear (h : Quiet s t) (n : Node) : Clear n s t := by
  obtain ⟨new, heq, hquiet⟩ := h
  refine ⟨new, heq, List.countP_eq_zero.mpr fun d hd hmisses => ?_⟩
  exact hquiet d hd (Node.start_of_missesEnd hmisses).1

end ParseState

theorem Parser.clear_closeBlock {m : Node} (hm : m.start ≠ o.token.start)
    (h : (closeBlock o header k stop).run s = ((), t)) : Clear m s t := by
  obtain ⟨-, rfl⟩ | ⟨-, -, hreports⟩ := closeBlock_cases h
  · exact .refl m s
  · refine ⟨[_], hreports, List.countP_eq_zero.mpr fun d hd hmisses => ?_⟩
    obtain rfl := List.mem_singleton.mp hd
    exact hm (Node.start_of_missesEnd hmisses).2.symm

/-- What is said elsewhere says nothing about the node. -/
theorem Told.clear {n : Node} (h : Told text ends lo s t ns)
    (hn : n.start < lo ∨ t.place ≤ n.start) : Clear n s t := by
  obtain ⟨new, heq, hbetween, -⟩ := h
  refine ⟨new, heq, List.countP_eq_zero.mpr fun d hd hmisses => ?_⟩
  obtain ⟨habout, hstart⟩ := Node.start_of_missesEnd hmisses
  have hin := hbetween.inside d hd habout
  omega

namespace Node

/-- The token stands in the header of a node that takes any token there. -/
def TakesIntoHeader (e : Token) (n : Node) : Prop :=
  n.kind.takesAny = true ∧ n.start ≤ e.start ∧ e.start < n.extent.headerStop

instance (e : Token) (n : Node) : Decidable (n.TakesIntoHeader e) :=
  inferInstanceAs (Decidable (_ ∧ _ ∧ _))

/-- The node is a block of the keyword that ends with the pair. -/
def EndsWith (k : Keyword) (e w : Token) (n : Node) : Prop :=
  n.kind.block? = some k ∧ n.extent.headerStop ≤ e.start ∧ n.stop = w.stop

/-- The node is a block of the keyword, and the token stands in it behind its header. -/
def OpenAt (k : Keyword) (e : Token) (n : Node) : Prop :=
  n.kind.block? = some k ∧ n.extent.headerStop ≤ e.start ∧ e.start < n.stop

instance (k : Keyword) (e : Token) (n : Node) : Decidable (n.OpenAt k e) :=
  inferInstanceAs (Decidable (_ ∧ _ ∧ _))

end Node

/-- Among the nodes read between two states one has taken the pair into its header or ends with it,
or the text nests too deep. -/
def PairTaken (k : Keyword) (e w : Token) (s t : ParseState) (ns : List Node) : Prop :=
  t.limitReported = true ∨ ∃ n ∈ ns, ∃ path m, n.Reaches path m ∧
    (m.TakesIntoHeader e ∨ m.EndsWith k e w ∧ Clear m s t)

theorem PairTaken.lift (h : PairTaken k e w t u ms) (hlater : Later u v)
    (hmem : ∀ n ∈ ms, ∀ path m, n.Reaches path m →
      ∃ n' ∈ ns, ∃ path', n'.Reaches path' m)
    (hclear : ∀ n ∈ ms, ∀ path m, n.Reaches path m → m.EndsWith k e w →
      Clear m s t ∧ Clear m u v) : PairTaken k e w s v ns := by
  obtain hlimit | ⟨n, hn, path, m, hreach, hm⟩ := h
  · exact .inl (hlater.limitReported hlimit)
  · obtain ⟨n', hn', path', hreach'⟩ := hmem n hn path m hreach
    refine .inr ⟨n', hn', path', m, hreach', hm.imp_right fun hends => ⟨hends.1, ?_⟩⟩
    obtain ⟨hbefore, hbehind⟩ := hclear n hn path m hreach hends.1
    exact hbefore.trans (hends.2.trans hbehind)

/-- A pair that the children of a node take is taken with the node. -/
theorem PairTaken.around (h : PairTaken k e w t u n.children) (hlater : Later u v)
    (hclear : ∀ c ∈ n.children, ∀ path m, c.Reaches path m → Clear m s t ∧ Clear m u v) :
    PairTaken k e w s v [n] :=
  h.lift hlater
    (fun _ hc _ _ hreach => ⟨n, List.mem_singleton_self n, _, hreach.of_child hc⟩)
    fun c hc path m hreach _ => hclear c hc path m hreach

theorem Node.EndsWith.start_lt_place {m : Node} (h : m.EndsWith k e w)
    (hpair : ClosingPair text k e w) (hlaid : Laid text s t ns) (hn : n ∈ ns)
    (hreach : n.Reaches path m) : m.start < t.place := by
  have hplaced := hlaid.2.placed n hn
  have hstart : m.start ≤ m.extent.headerStop := (hplaced path m hreach).start_le
  have hwithin := (hreach.within hplaced).2
  have hstop := (hlaid.2.inside n hn).2.2
  have hpair := hpair.start_lt
  obtain ⟨-, hheader, hend⟩ := h
  omega

/-- Behind its header the pair is ahead of a node, or it has been taken. -/
theorem ParseState.Ahead.past_header (hpair : ClosingPair text k e w) (hs : s.Ahead e)
    (hat : At text s) (hopens : Opens o s) (hmoves : Moves kind.reads statementMessages s t)
    (hlater : Later t u) (hclosed : Closed o t.place kind ns u n) :
    t.Ahead e ∨ PairTaken k e w s u [n] := by
  cases hany : kind.takesAny with
  | false =>
    rw [NodeKind.reads_of_takesAny hany] at hmoves
    exact (hmoves.ahead hpair hs hat).imp_right fun hlimit => .inl (hlater.limitReported hlimit)
  | true =>
    -- Whatever the header reads, the token is still ahead or stands in the header.
    by_cases ht : t.Ahead e
    · exact .inl ht
    · refine .inr (.inr ⟨n, List.mem_singleton_self n, [], n, .root, .inl ⟨?_, ?_, ?_⟩⟩)
      · rw [hclosed.kind_eq, hany]
      · have hlt := hopens.start_lt
        rw [hclosed.start_eq]
        unfold Ahead at hs
        omega
      · rw [hclosed.headerStop_eq]
        unfold Ahead at ht
        omega

/-- Where the pair is ahead of the END of a block, it is ahead behind the block as well, or the
block ends with it. -/
theorem ParseState.Ahead.past_end {inner : Context} (hpair : ClosingPair text k e w)
    (hs : s.Ahead e) (hat : At text s) (hplace : header ≤ s.place)
    (hstop : Stops inner (some (.keyword j)) s stop)
    (hend : (Parser.closeBlock o header j stop).run s = ((), t)) (hafter : Rests t u)
    (hclosed : Closed o header kind ns u n) (hkind : kind.block? = some j) :
    u.Ahead e ∨ n.EndsWith k e w ∧ Quiet s u := by
  obtain ht | ⟨rfl, hplace', hreports⟩ :=
    hs.closeBlock hpair hat (NodeKind.block?_ne hkind).1 hstop hend
  · exact .inl (ht.of_input hafter.2)
  · refine .inr ⟨⟨?_, ?_, ?_⟩, (Quiet.of_eq hreports).trans hafter.stays.quiet⟩
    · rw [hclosed.kind_eq, hkind]
    · rw [hclosed.headerStop_eq]
      exact Nat.le_trans hplace hs
    · rw [hclosed.stop_eq, hafter.stays.place, hplace']

/-- What is read between two states does not lose the pair: where it closes a block around, as
`inside` says, it stays ahead or is taken, and where it finds a block of its keyword open, it is
taken. -/
structure EndNotLost (k : Keyword) (e w : Token) (inside : Prop) (s t : ParseState)
    (ns : List Node) : Prop where
  passes : inside → s.Ahead e → t.Ahead e ∨ PairTaken k e w s t ns
  finds : ∀ n ∈ ns, ∀ path m, n.Reaches path m → m.OpenAt k e → PairTaken k e w s t ns

namespace EndNotLost

section

variable {text : String} {k : Keyword} {e w : Token} (hpair : ClosingPair text k e w)

theorem nil (s : ParseState) : EndNotLost k e w inside s s [] := ⟨fun _ h => .inl h, by simp⟩

/-- What comes behind the nodes does not say that the END of one of them is missing. -/
theorem behind (h : EndNotLost k e w inside s t ns) (hlater : Later t u)
    (hahead : inside → t.Ahead e → u.Ahead e ∨ u.limitReported = true)
    (hclear : ∀ n ∈ ns, ∀ path m, n.Reaches path m → m.EndsWith k e w → Clear m t u) :
    EndNotLost k e w inside s u ns := by
  have hlift (hpairTaken : PairTaken k e w s t ns) : PairTaken k e w s u ns :=
    hpairTaken.lift hlater (fun n hn path m hreach => ⟨n, hn, path, hreach⟩)
      fun n hn path m hreach hends => ⟨.refl m s, hclear n hn path m hreach hends⟩
  refine ⟨fun hinside hs => ?_, fun n hn path m hreach hopen => ?_⟩
  · obtain ht | hpairTaken := h.passes hinside hs
    · exact (hahead hinside ht).imp_right .inl
    · exact .inr (hlift hpairTaken)
  · exact hlift (h.finds n hn path m hreach hopen)

theorem looks (h : EndNotLost k e w inside s t ns) (hlook : Looks t u) :
    EndNotLost k e w inside s u ns :=
  h.behind hlook.later (fun _ ht => .inl (hlook.ahead ht)) fun _ _ _ m _ _ => hlook.quiet.clear m

include hpair

/-- Something is read behind nodes that adds none. -/
theorem skip (h : EndNotLost k e w inside s t ns) (hlaid : Laid text s t ns) (hlater : Later t u)
    (htold : Told text ends t.place t u [])
    (hahead : inside → t.Ahead e → u.Ahead e ∨ u.limitReported = true) :
    EndNotLost k e w inside s u ns :=
  h.behind hlater hahead fun _ hn _ _ hreach hends =>
    htold.clear (.inl (hends.start_lt_place hpair hlaid hn hreach))

/-- One more node is read behind others. -/
theorem add {errors : Nat} (h : EndNotLost k e w inside s t ns) (hlaid : Laid text s t ns)
    (htold : Told text ends s.place s t ns) (hkind : t.kindAt 1 ≠ .endOfFile) (hlook : Looks t u)
    (hahead : inside → t.Ahead e → u.read.Ahead e) (hlater : Later u.read v)
    (hnode : At text u.read → Opens ⟨u.read.input.last, errors⟩ u.read →
      Spans text ⟨u.read.input.last, errors⟩ u.read v n ∧
      Told text ends u.read.input.last.start u.read v [n] ∧
      EndNotLost k e w inside u.read v [n]) :
    EndNotLost k e w inside s v (n.insert ns) := by
  obtain ⟨honward, hopens, hstart⟩ := hlaid.1.1.opens hkind hlook errors
  obtain ⟨hspans, htold', hnode⟩ := hnode honward.1 hopens
  obtain ⟨happend, -⟩ := hlaid.add honward hopens hstart hspans
    ⟨hspans.onward.1, Nat.le_refl _⟩
  rw [show n.insert ns = ns ++ [n] from happend]
  have hquiet : Quiet t u.read := hlook.quiet.trans (.of_eq rfl)
  have hlater : Later t v := hlook.later.trans ((Later.read u).trans hlater)
  have hbefore (hpairTaken : PairTaken k e w s t ns) : PairTaken k e w s v (ns ++ [n]) := by
    refine hpairTaken.lift hlater
      (fun m hm path m' hreach => ⟨m, List.mem_append_left _ hm, path, hreach⟩) ?_
    intro m hm path m' hreach hends
    have hlt := Nat.lt_of_lt_of_le (hends.start_lt_place hpair hlaid hm hreach) hstart
    exact ⟨.refl m' s, (hquiet.clear m').trans (htold'.clear (.inl hlt))⟩
  have hbehind (hpairTaken : PairTaken k e w u.read v [n]) : PairTaken k e w s v (ns ++ [n]) := by
    refine hpairTaken.lift (.refl v)
      (fun m hm path m' hreach => ⟨m, List.mem_append_right _ hm, path, hreach⟩) ?_
    intro m hm path m' hreach _
    obtain rfl := List.mem_singleton.mp hm
    have hle := (hreach.within hspans.placed).1
    rw [hspans.start_eq] at hle
    exact ⟨(htold.clear (.inr (Nat.le_trans hstart hle))).trans (hquiet.clear m'), .refl m' v⟩
  refine ⟨fun hinside hs => ?_, fun m hm path m' hreach hopen => ?_⟩
  · obtain ht | hpairTaken := h.passes hinside hs
    · exact (hnode.passes hinside (hahead hinside ht)).imp_right hbehind
    · exact .inr (hbefore hpairTaken)
  · obtain hm | hm := List.mem_append.mp hm
    · exact hbefore (h.finds m hm path m' hreach hopen)
    · exact hbehind (hnode.finds m hm path m' hreach hopen)

omit hpair in
/-- The node around nodes. -/
theorem around (h : EndNotLost k e w inside' t u n.children)
    (hlift : PairTaken k e w t u n.children → PairTaken k e w s v [n])
    (hpasses : inside → s.Ahead e → v.Ahead e ∨ PairTaken k e w s v [n])
    (hroot : n.OpenAt k e → PairTaken k e w s v [n]) : EndNotLost k e w inside s v [n] := by
  refine ⟨hpasses, fun m hm path m' hreach hopen => ?_⟩
  obtain rfl := List.mem_singleton.mp hm
  obtain ⟨rfl, rfl⟩ | ⟨c, hc, path', hreach', rfl⟩ := hreach.root_or_below
  · exact hroot hopen
  · exact hlift (h.finds c hc path' m' hreach' hopen)

/-- The node around nodes, if it is no block. -/
theorem close (h : EndNotLost k e w inside t u ns) (hat : At text s) (hopens : Opens o s)
    (hmoves : Moves kind.reads statementMessages s t) (hlater : Later t u)
    (hclosed : Closed o t.place kind ns u n) (hkind : kind.block? = none) :
    EndNotLost k e w inside s u [n] := by
  obtain rfl := hclosed.children_eq
  have hquiet := hmoves.steps.quiet statementMessages_subset_quiet
  have hlift (hpairTaken : PairTaken k e w t u n.children) : PairTaken k e w s u [n] :=
    hpairTaken.around (.refl u) fun _ _ _ m _ => ⟨hquiet.clear m, .refl m u⟩
  refine h.around hlift (fun hinside hs => ?_) fun hopen => ?_
  · obtain ht | hpairTaken := hs.past_header hpair hat hopens hmoves hlater hclosed
    · exact (h.passes hinside ht).imp_right hlift
    · exact .inr hpairTaken
  · have hblock := hopen.1
    rw [hclosed.kind_eq, hkind] at hblock
    cases hblock

/-- A block, from its header to behind its END. -/
theorem block {ctx : Context} {kind : NodeKind} (hat : At text s) (hopens : Opens o s)
    (hstops : ctx.StopsAtWords) (hmoves : Moves careful statementMessages s s₁)
    (hheader : header = max s₁.input.last.stop o.token.start) (hbefore : Rests s₁ s₂)
    (hcontent : Account (.content levels ctx j s₂ ns stop s₃))
    (h : EndNotLost k e w (.keyword k ∈ .keyword j :: ctx.ends) s₂ s₃ ns)
    (hbehind : Rests s₃ s₄)
    (hend : (closeBlock o header j stop).run s₄ = ((), s₅)) (hafter : Rests s₅ s₆)
    (hkind : kind.block? = some j) (hclose : (closeNode o header kind ns).run s₆ = (n, t)) :
    EndNotLost k e w (.keyword k ∈ ctx.ends) s t [n] := by
  have hon₁ := hat.steps hmoves.steps
  have hat₂ := (hon₁.1.steps hbefore.stays.1).1
  obtain rfl := hopens.header_eq hat ⟨hmoves.steps, hheader⟩
  obtain ⟨hlaid, -⟩ := laidOut_of_derivable hcontent.derives hat₂
  have hat₄ := (hlaid.1.1.steps hbehind.stays.1).1
  have hlater := (runs_closeBlock o s₁.place j stop s₄).later hend
  have hplace₂ := hbefore.stays.place
  have hplace₄ := hbehind.stays.place
  have hplace₆ := hafter.stays.place
  have hle := hlaid.1.2
  have hle' := (hlater.onward hat₄).2
  obtain ⟨rfl, hclosed⟩ := closed_closeNode (by omega) hclose
  obtain rfl := hclosed.children_eq
  have hlater₃ : Later s₃ t := hbehind.later.trans (hlater.trans hafter.later)
  have hquiet : Quiet s s₂ :=
    (hmoves.steps.quiet statementMessages_subset_quiet).trans hbefore.stays.quiet
  have hstart : n.start < s₁.place := by
    rw [hclosed.start_eq]
    exact Nat.lt_of_lt_of_le hopens.start_lt hon₁.2
  have hlift (hpairTaken : PairTaken k e w s₂ s₃ n.children) : PairTaken k e w s t [n] := by
    refine hpairTaken.around hlater₃ fun c hc path m hreach => ⟨hquiet.clear m, ?_⟩
    have hm := (hreach.within (hlaid.2.placed c hc)).1
    have hc := (hlaid.2.inside c hc).1
    have hne : m.start ≠ o.token.start := by
      rw [← hclosed.start_eq]
      omega
    exact (hbehind.stays.quiet.clear m).trans
      ((clear_closeBlock hne hend).trans (hafter.stays.quiet.clear m))
  have hcloses (hs₃ : s₃.Ahead e) : t.Ahead e ∨ PairTaken k e w s t [n] := by
    obtain ⟨inner, -, hstop⟩ := hcontent.derives.stops_content
    have hstop₄ := hstop.congr (hbehind.stays.kindAt 1) (hbehind.stays.kindAt 2)
    obtain ht | ⟨hends, hquiet'⟩ :=
      (hs₃.of_input hbehind.2).past_end hpair hat₄ (by omega) hstop₄ hend hafter hclosed hkind
    · exact .inl ht
    · refine .inr (.inr ⟨n, List.mem_singleton_self n, [], n, .root, .inr ⟨hends, ?_⟩⟩)
      have htold := isTold_of_derivable hcontent.derives hat₂ hstops
      exact (hquiet.clear n).trans ((htold.clear (.inl (hplace₂ ▸ hstart))).trans
        ((hbehind.stays.quiet.trans hquiet').clear n))
  have hbody (hin : .keyword k ∈ Kind.keyword j :: ctx.ends) (hs₁ : s₁.Ahead e) :
      t.Ahead e ∨ PairTaken k e w s t [n] := by
    obtain hs₃ | hpairTaken := h.passes hin (hs₁.of_input hbefore.2)
    · exact hcloses hs₃
    · exact .inr (hlift hpairTaken)
  refine h.around hlift (fun hin hs => ?_) fun ⟨hblock, hheader, hstop⟩ => ?_
  · obtain hs₁ | hlimit := hmoves.ahead hpair hs hat
    · exact hbody (List.mem_cons_of_mem _ hin) hs₁
    · exact .inr
        (.inl ((hbefore.later.trans (hcontent.later.trans hlater₃)).limitReported hlimit))
  · rw [hclosed.kind_eq, hkind] at hblock
    rw [hclosed.headerStop_eq] at hheader
    rw [hclosed.stop_eq] at hstop
    obtain rfl := Option.some.inj hblock
    exact (hbody (List.mem_cons_self ..) hheader).resolve_left (Nat.not_le_of_lt hstop)

end

end EndNotLost

/-! ## What is read -/

/-- What a judgment says about the pair. -/
def Judgment.LosesNoEnd (text : String) (k : Keyword) (e w : Token) : Judgment → Prop
  | .rounds _ ctx region s p t => At text s → ctx.StopsAtWords →
      region.unexpected ∈ quietMessages → EndNotLost k e w (.keyword k ∈ ctx.ends) s t p.nodes
  | .clauseRounds _ ctx inner _ s p t => At text s → inner.ends = ctx.ends →
      inner.StopsAtWords → EndNotLost k e w (.keyword k ∈ ctx.ends) s t p.nodes
  | .body _ ctx region s ns _ t => At text s → ctx.StopsAtWords →
      region.unexpected ∈ quietMessages → EndNotLost k e w (.keyword k ∈ ctx.ends) s t ns
  | .content _ ctx j s ns _ t => At text s → ctx.StopsAtWords →
      EndNotLost k e w (.keyword k ∈ .keyword j :: ctx.ends) s t ns
  | .clause _ ctx region o s n _ t => At text s → Opens o s → ctx.StopsAtWords →
      region.unexpected ∈ quietMessages → EndNotLost k e w (.keyword k ∈ ctx.ends) s t [n]
  | .statement _ ctx o s n t => At text s → Opens o s → ctx.StopsAtWords →
      EndNotLost k e w (.keyword k ∈ ctx.ends) s t [n]

theorem Account.losesNoEnd (hpair : ClosingPair text k e w) {J : Judgment} (h : Account J) :
    J.LosesNoEnd text k e w := by
  induction h with
  | noRound _ _ _ s => exact fun _ _ _ => .nil s
  | noClause _ _ _ _ s => exact fun _ _ _ => .nil s
  | addStatement hbefore hchoice _ _ hstatement hjump hleave ihBefore ihStatement =>
    intro hat hstops hregion
    obtain ⟨hlaid, -⟩ := laidOut_of_derivable hbefore.derives hat
    have hendNotLost := (ihBefore hat hstops hregion).add hpair hlaid
      (isTold_of_derivable hbefore.derives hat hstops hregion) hchoice.passes.ne_endOfFile
      hchoice.looks
      (fun hin ht => ht.read_of_passes hpair hlaid.1.1 hchoice.passes hin hchoice.looks)
      hstatement.later fun hat hopens => ⟨(laidOut_of_derivable hstatement.derives hat hopens).1,
        isTold_of_derivable hstatement.derives hat hopens hstops, ihStatement hat hopens hstops⟩
    have hquiet := (reportsOnly_checkJump _ _).quiet
      (Set.singleton_subset_iff.mpr ⟨by decide, by decide⟩) hjump
    exact (hendNotLost.behind ((careful_checkJump _ _ _).later hjump)
      (fun _ hv => .inl (hv.of_input (input_checkJump hjump)))
      fun _ _ _ m _ _ => hquiet.clear m).looks hleave
  | @skip _ _ _ _ p _ _ q _ hbefore hskip ih =>
    intro hat hstops hregion
    obtain ⟨hlaid, -⟩ := laidOut_of_derivable hbefore.derives hat
    obtain ⟨_, hfirst, -, hlast⟩ := hskip.later
    have hnodes : q.nodes = p.nodes := hskip.nodes_eq
    rw [hnodes]
    exact (ih hat hstops hregion).skip hpair hlaid (hfirst.trans ((Later.read _).trans hlast))
      (told_skip hregion hskip hlaid.1.1) fun hin ht => ht.skip hpair hlaid.1.1 hin hskip
  | addClause hbefore hpass hlook _ hclause ihBefore ihClause =>
    intro hat hends hstops
    obtain ⟨hlaid, -⟩ := laidOut_of_derivable hbefore.derives hat
    exact (ihBefore hat hends hstops).add hpair hlaid
      (isTold_of_derivable hbefore.derives hat hends hstops) hpass.ne_endOfFile hlook
      (fun hin ht => ht.read_of_passes hpair hlaid.1.1 hpass hin hlook) hclause.later
      fun hat hopens => ⟨(laidOut_of_derivable hclause.derives hat hopens).1,
        hends ▸ isTold_of_derivable hclause.derives hat hopens hstops unexpectedToken_quiet,
        hends ▸ ihClause hat hopens hstops unexpectedToken_quiet⟩
  | skipClause hbefore hpass _ hlook hskip ih =>
    intro hat hends hstops
    obtain ⟨hlaid, -⟩ := laidOut_of_derivable hbefore.derives hat
    have hmoves := (careful_skipUnexpected _ _ _).of_run hskip
    have hlater := hlook.later.trans ((Later.read _).trans hmoves.later)
    refine (ih hat hends hstops).skip hpair hlaid hlater
      (told_skipUnexpected unexpectedToken_quiet hlaid.1.1 hpass hlook hskip) fun hin ht => ?_
    exact hmoves.ahead hpair (ht.read_of_passes hpair hlaid.1.1 hpass hin hlook)
      (hlaid.1.1.looks hlook).1.read.1
  | body _ _ hlook ih =>
    intro hat hstops hregion
    exact (ih hat hstops hregion).looks hlook
  | @holdsBody _ j _ _ _ _ ctx _ _ ih =>
    intro hat hstops
    have hinside := ctx.inside_within j
    exact hinside.ends_eq ▸ ih hat (hinside.stops_subset hstops) unexpectedToken_quiet
  | @holdsBranches word _ _ j _ _ _ _ _ _ ctx hword hbody _ hbranch ihBody ihBranch =>
    intro hat hstops
    have hfirst := ctx.inside_within j
    have hsecond : ctx.Inside j (ctx.withEnd (.keyword j)) := .plain j
    obtain ⟨hlaid, -⟩ := laidOut_of_derivable hbody.derives hat
    have htold := isTold_of_derivable hbody.derives hat (hfirst.stops_subset hstops)
      unexpectedToken_quiet
    have hendNotLost := ihBody hat (hfirst.stops_subset hstops) unexpectedToken_quiet
    rw [hfirst.ends_eq] at htold hendNotLost
    have hne : Kind.keyword word ≠ .keyword .END := by
      unfold Keyword.secondBranch? at hword
      split at hword <;> cases hword <;> decide
    exact hendNotLost.add hpair hlaid htold hbody.stops_body.ne_endOfFile (.refl _)
      (fun _ ht => ht.read_of_ne hpair hlaid.1.1 (hbody.stops_body.kindAt_eq ▸ hne)) hbranch.later
      fun hat hopens => ⟨(laidOut_of_derivable hbranch.derives hat hopens).1,
        isTold_of_derivable hbranch.derives hat hopens (hsecond.stops_subset hstops)
          unexpectedToken_quiet,
        ihBranch hat hopens (hsecond.stops_subset hstops) unexpectedToken_quiet⟩
  | @holdsClauses _ j _ _ _ _ _ ctx _ _ _ hlook ih =>
    intro hat hstops
    have hinside := ctx.inside_within j
    exact (ih hat hinside.ends_eq (hinside.stops_subset hstops)).looks hlook
  | clause hheader hstop hbody _ hkind hclose ih =>
    intro hat hopens hstops hregion
    have honward := hat.steps hheader.steps
    obtain ⟨hlaid, -⟩ := laidOut_of_derivable hbody.derives honward.1
    obtain rfl := hopens.header_eq hat ⟨hheader.steps, hstop⟩
    obtain ⟨rfl, hclosed⟩ := closed_closeNode hlaid.1.2 hclose
    exact (ih honward.1 hstops hregion).close hpair hat hopens hheader hbody.later hclosed hkind
  | leaf hmoves hkind hclose =>
    intro hat hopens _
    have honward := hat.steps hmoves.steps
    have hstart := Nat.le_of_lt (Nat.lt_of_lt_of_le hopens.start_lt honward.2)
    obtain ⟨rfl, hclosed⟩ := closed_closeStatement hstart hclose
    exact (EndNotLost.nil _).close hpair hat hopens hmoves (.refl _) hclosed hkind
  | block hheader hstop hbefore hcontent hbehind hend hafter hkind hclose ih =>
    intro hat hopens hstops
    exact .block hpair hat hopens hstops hheader hstop hbefore hcontent
      (ih ((hat.steps hheader.steps).1.steps hbefore.stays.1).1 hstops) hbehind hend hafter hkind
      hclose

/-! ## Modules -/

/-- Where a block is open, an END that begins a line and has the keyword of the block behind it
closes a block of that keyword. It can be lost only in the attributes of an output statement or in
the keys of a command, or where the text nests too deep. -/
theorem parseModule_open_blocks (text : String) (options : ParseOptions)
    {path : List Node} {n : Node} {k : Keyword} {before after : List Token} {e w : Token}
    (hreach : (parseModule text options).module.Reaches path n) (hopen : n.OpenAt k e)
    (htokens : tokens .default text = before ++ e :: w :: after) (hend : e.kind = .keyword .END)
    (hline : e.lineBreakBefore = true) (hword : w.kind = .keyword k) :
    (∃ path m, (parseModule text options).module.Reaches path m ∧ m.EndsWith k e w ∧
        (parseModule text options).diagnostics.countP m.missesEnd = 0) ∨
      (∃ path m, (parseModule text options).module.Reaches path m ∧ m.TakesIntoHeader e) ∨
      ∃ d ∈ (parseModule text options).diagnostics, d.code = Message.nestingTooDeep.code := by
  have hpair : ClosingPair text k e w :=
    ⟨⟨before, after, htokens⟩, hend, hline, hword, n.kind, hopen.1⟩
  obtain ⟨s, stop, hbody, -, -, -, hblock, hdiagnostics⟩ := account_parseModule text options
  have hat := at_ofText options.mode text
  have hendNotLost := hbody.losesNoEnd hpair hat (List.nil_subset _) ⟨by decide, by decide⟩
  obtain ⟨rfl, rfl⟩ | ⟨c, hc, path', hreach', rfl⟩ := hreach.root_or_below
  · rw [hopen.1] at hblock
    cases hblock
  have hread := (hbody.later.onward hat).1.read.1
  have hperm := s.read.perm_diagnostics
  obtain hlimit | ⟨c', hc', path'', m, hreach'', hm⟩ :=
    hendNotLost.finds c hc path' n hreach' hopen
  · obtain ⟨ts, htokensRead⟩ := hbody.later
    obtain ⟨d, hd, hcode⟩ := htokensRead.limitTold rfl hlimit
    have hmem : d ∈ s.read.diagnostics := hperm.mem_iff.mpr (List.mem_append_right _ hd)
    refine .inr (.inr ?_)
    rw [hdiagnostics]
    unfold ParseOptions.placed
    split
    · exact ⟨d.inFile _, List.mem_map_of_mem hmem, hcode⟩
    · exact ⟨d, hmem, hcode⟩
  · have hreach := hreach''.of_child hc'
    obtain hintoHeader | ⟨hends, new, hnew, hcount⟩ := hm
    · exact .inr (.inl ⟨_, m, hreach, hintoHeader⟩)
    · refine .inl ⟨_, m, hreach, hends, ?_⟩
      have hissues : s.read.input.issues.countP m.missesEnd = 0 :=
        List.countP_eq_zero.mpr fun d hd hmisses =>
          not_aboutEnd_of_mem_issues hread d hd (Node.start_of_missesEnd hmisses).1
      have hreports : s.read.reports = new := hnew.trans (List.append_nil new)
      rw [hdiagnostics, options.countP_placed _ fun _ _ => rfl, hperm.countP_eq, List.countP_append,
        hissues, hreports, hcount]

/-- The END of an IF closes it even behind an assignment without a value. -/
theorem parseModule_open_blocks_assignment :
    ∃ path m, (parseModule "main\nif a then\nlet b =\nend if\nend main"
      {}).module.Reaches path m ∧ m.kind.block? = some .IF ∧ m.stop = 29 ∧
      (parseModule "main\nif a then\nlet b =\nend if\nend main" {}).diagnostics.countP
        m.missesEnd = 0 := by
  have hparsed :
      tokens .default "main\nif a then\nlet b =\nend if\nend main" =
          (tokens .default "main\nif a then\nlet b =\nend if\nend main").take 7 ++
            ⟨.keyword .END, 23, 26, "end", { lineBreakBefore := true }⟩ ::
            ⟨.keyword .IF, 27, 29, "if", {}⟩ ::
            (tokens .default "main\nif a then\nlet b =\nend if\nend main").drop 9 ∧
        (∃ x ∈ (parseModule "main\nif a then\nlet b =\nend if\nend main" {}).module.walk [],
          x.2.OpenAt .IF ⟨.keyword .END, 23, 26, "end", { lineBreakBefore := true }⟩) ∧
        (∀ x ∈ (parseModule "main\nif a then\nlet b =\nend if\nend main" {}).module.walk [],
          ¬ x.2.TakesIntoHeader ⟨.keyword .END, 23, 26, "end",
            { lineBreakBefore := true }⟩) ∧
        ∀ d ∈ (parseModule "main\nif a then\nlet b =\nend if\nend main" {}).diagnostics,
          d.code ≠ Message.nestingTooDeep.code := by decide +kernel
  obtain ⟨htokens, ⟨⟨_, n⟩, hn, hopen⟩, hendNotLost, hdeep⟩ := hparsed
  obtain ⟨path, hreach, -⟩ := (Node.mem_walk [] _).mp hn
  obtain ⟨path, m, hreach, ⟨hblock, -, hstop⟩, hcount⟩ |
    ⟨path, m, hreach, hintoHeader⟩ |
    ⟨d, hd, hcode⟩ := parseModule_open_blocks _ {} hreach hopen htokens rfl rfl rfl
  · exact ⟨path, m, hreach, hblock, hstop, hcount⟩
  · have hm := (Node.mem_walk [] _).mpr ⟨path, hreach, (List.append_nil path).symm⟩
    exact absurd hintoHeader (hendNotLost _ hm)
  · exact absurd hcode (hdeep d hd)

-- The attributes of an output statement are read up to the end of the text if nothing closes them.
example :
    ∃ x ∈ (parseModule "main\nif a then\ndisplay b attributes(\nend if\nend main"
      {}).module.walk [],
      x.2.TakesIntoHeader ⟨.keyword .END, 37, 40, "end", { lineBreakBefore := true }⟩ := by
  decide +kernel

end FourGL
