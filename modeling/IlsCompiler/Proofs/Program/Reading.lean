import IlsCompiler.Program.Parser

namespace IlsCompiler

/-!
# Readers of tokens

A reader either takes tokens from the front of its input and gives a value, or it stops with a
report that blames something in the input, for the line of one of its tokens. What holds of the
value and the tokens taken is put together step by step along the reader.
-/

variable
    {kind : Token.Kind}
    {reader : Parser α}
    {line : Nat}
    {brackets : Unclosed}
    {item : Expected}

namespace Parser

variable
    {known : Nat → Prop}
    {input rest : List Lexeme}

/-- The token that a reader sees next. -/
def nextToken (input : List Lexeme) : Token :=
  (input.head?.map Lexeme.token).getD endToken

@[simp] theorem nextToken_cons
    (lexeme : Lexeme)
    (rest : List Lexeme) :
    nextToken (lexeme :: rest) = lexeme.token :=
  rfl

/-- A token that is not the end of the input can be taken. -/
theorem exists_of_nextToken
    (isKind : (nextToken input).kind = kind)
    (notEnd : kind ≠ .endOfInput) :
    ∃ lexeme rest, input = lexeme :: rest ∧ lexeme.token.kind = kind := by
  cases input with
  | nil => exact (notEnd isKind.symm).elim
  | cons lexeme rest => exact ⟨lexeme, rest, rfl, isKind⟩

/-- A report about a malformed token of the input, or about the order of its tokens. -/
def Blames (input : List Lexeme) (report : Report) : Prop :=
  (∃ lexeme ∈ input, lexeme.report? = some report) ∨
    ∃ (fault : GrammarFault) (line : Nat),
      report = { code := fault.code, line := line, message := Bytes.ofString fault.message }

theorem Blames.mono
    {fewer : List Lexeme}
    {report : Report}
    (blames : Blames fewer report)
    (covers : fewer ⊆ input) :
    Blames input report :=
  blames.imp_left fun ⟨lexeme, member, isReport⟩ => ⟨lexeme, covers member, isReport⟩

/-- An input whose lines are known and that has an end. -/
structure Located (known : Nat → Prop) (input : List Lexeme) : Prop where
  lines : ∀ lexeme ∈ input, known lexeme.token.line
  ends : ∃ lexeme ∈ input, lexeme.token.kind = .endOfInput

/-- The end is still there behind tokens that are not the end. -/
theorem Located.behind
    {used : List Lexeme}
    (located : Located known (used ++ rest))
    (notEnd : ∀ lexeme ∈ used, lexeme.token.kind ≠ .endOfInput) :
    Located known rest where
  lines lexeme member := located.lines lexeme (List.mem_append_right used member)
  ends := by
    obtain ⟨lexeme, member, isEnd⟩ := located.ends
    rcases List.mem_append.mp member with isUsed | isLeft
    · exact (notEnd lexeme isUsed isEnd).elim
    · exact ⟨lexeme, isLeft, isEnd⟩

/-- There is always a next token, and its line is known. -/
theorem Located.line_nextToken
    (located : Located known input) :
    known (nextToken input).line := by
  cases input with
  | nil =>
      obtain ⟨lexeme, member, -⟩ := located.ends
      cases member
  | cons lexeme rest => exact located.lines lexeme List.mem_cons_self

/--
A reader takes tokens from the front of its input, so that something holds of its value, of the
tokens taken and of what is left, or it stops with a report that blames the input. The end is not
taken, and reports are told for known lines.
-/
def Reads (known : Nat → Prop) (reader : Parser α) (input : List Lexeme)
    (post : α → List Token → List Lexeme → Prop) : Prop :=
  Located known input →
    match reader input with
    | .ok (value, rest) =>
        ∃ used, input = used ++ rest ∧ (∀ lexeme ∈ used, lexeme.token.kind ≠ .endOfInput) ∧
          post value (used.map Lexeme.token) rest
    | .error report => Blames input report ∧ known report.line

variable
    {post : α → List Token → List Lexeme → Prop}

theorem Reads.mono
    {weaker : α → List Token → List Lexeme → Prop}
    (reads : Reads known reader input post)
    (implies : ∀ value tokens rest, input.length = tokens.length + rest.length →
      post value tokens rest → weaker value tokens rest) :
    Reads known reader input weaker := by
  intro located
  have outcome := reads located
  split
  next value rest run =>
    rw [run] at outcome
    obtain ⟨used, rfl, notEnd, holds⟩ := outcome
    exact ⟨used, rfl, notEnd, implies value _ rest (by simp) holds⟩
  next report run =>
    rw [run] at outcome
    exact outcome

/-- The tokens taken and those left are the tokens of the input, and their lines are known. -/
theorem Reads.withInput
    (reads : Reads known reader input post) :
    Reads known reader input fun value tokens rest =>
      input.map Lexeme.token = tokens ++ rest.map Lexeme.token ∧
        (∀ token ∈ tokens, known token.line) ∧ post value tokens rest := by
  intro located
  have outcome := reads located
  split
  next value rest run =>
    rw [run] at outcome
    obtain ⟨used, rfl, notEnd, holds⟩ := outcome
    refine ⟨used, rfl, notEnd, List.map_append, ?_, holds⟩
    intro token member
    obtain ⟨lexeme, isUsed, rfl⟩ := List.mem_map.mp member
    exact located.lines lexeme (List.mem_append_left rest isUsed)
  next report run =>
    rw [run] at outcome
    exact outcome

variable
    {last : β → List Token → List Lexeme → Prop}

/-- A reader that goes on behind another one takes the tokens of both. -/
theorem Reads.bind
    {next : α → Parser β}
    (reads : Reads known reader input post)
    (later : ∀ value tokens rest, input.length = tokens.length + rest.length →
      post value tokens rest →
        Reads known (next value) rest fun result more => last result (tokens ++ more)) :
    Reads known (reader >>= next) input last := by
  intro located
  have outcome := reads located
  have run : (reader >>= next) input =
      (reader input >>= fun pair => next pair.1 pair.2) := rfl
  rw [run]
  cases first : reader input with
  | error report =>
      rw [first] at outcome
      exact outcome
  | ok pair =>
      obtain ⟨value, rest⟩ := pair
      rw [first] at outcome
      obtain ⟨used, rfl, notEnd, holds⟩ := outcome
      have goes := later value _ rest (by simp) holds (located.behind notEnd)
      show match next value rest with
        | .ok (result, left) => ∃ taken, used ++ rest = taken ++ left ∧
            (∀ lexeme ∈ taken, lexeme.token.kind ≠ .endOfInput) ∧
              last result (taken.map Lexeme.token) left
        | .error report => Blames (used ++ rest) report ∧ known report.line
      cases second : next value rest with
      | error report =>
          rw [second] at goes
          exact ⟨goes.1.mono (List.subset_append_right _ _), goes.2⟩
      | ok pair =>
          obtain ⟨result, left⟩ := pair
          rw [second] at goes
          obtain ⟨more, rfl, noEnd, finished⟩ := goes
          refine ⟨used ++ more, (List.append_assoc _ _ _).symm, ?_, by simpa using finished⟩
          exact List.forall_mem_append.mpr ⟨notEnd, noEnd⟩

theorem reads_pure
    {value : α}
    (holds : post value [] input) :
    Reads known (pure value) input post :=
  fun _ => ⟨[], rfl, fun _ member => (List.not_mem_nil member).elim, holds⟩

theorem reads_fail
    (here : known line)
    (fault : GrammarFault) :
    Reads known (fail line fault) input post := by
  intro located
  unfold fail
  cases malformed : input.head?.bind Lexeme.report? with
  | none => exact ⟨.inr ⟨fault, line, rfl⟩, here⟩
  | some report =>
      obtain ⟨lexeme, isHead, isReport⟩ := Option.bind_eq_some_iff.mp malformed
      have member := List.mem_of_head? isHead
      refine ⟨.inl ⟨lexeme, member, isReport⟩, ?_⟩
      obtain ⟨found, -, rfl⟩ := Option.map_eq_some_iff.mp isReport
      exact located.lines lexeme member

theorem reads_fail_bind
    (here : known line)
    (fault : GrammarFault)
    {next : α → Parser β}
    {last : β → List Token → List Lexeme → Prop} :
    Reads known (fail line fault >>= next) input last := by
  have never : Reads known (fail line fault : Parser α) input fun _ _ _ => False :=
    reads_fail here fault
  exact never.bind fun _ _ _ _ holds => holds.elim

theorem reads_pure_bind
    {value : α}
    {next : α → Parser β}
    (reads : Reads known (next value) input last) :
    Reads known (pure value >>= next) input last :=
  reads

theorem reads_peek
    {next : Token → Parser α}
    (reads : Reads known (next (nextToken input)) input post) :
    Reads known (peek >>= next) input post := by
  have run : (peek >>= next) input = next (nextToken input) input := by
    cases input <;> rfl
  unfold Reads at reads ⊢
  rw [run]
  exact reads

theorem reads_failHere
    (fault : GrammarFault) :
    Reads known (failHere fault) input post :=
  fun located => reads_peek (reads_fail located.line_nextToken fault) located

theorem at_bind
    {next : Bool → Parser α} :
    at? kind >>= next = peek >>= fun token => next (decide (token.kind = kind)) := by
  funext input
  cases input <;> rfl

theorem reads_at
    {next : Bool → Parser α}
    (reads : Reads known (next (decide ((nextToken input).kind = kind))) input post) :
    Reads known (at? kind >>= next) input post := by
  rw [at_bind]
  exact reads_peek reads

variable
    {lexeme : Lexeme}

/-- A token that is not the end is taken. -/
theorem reads_token
    (isKind : lexeme.token.kind = kind)
    (notEnd : kind ≠ .endOfInput) :
    Reads known advance (lexeme :: rest) fun token tokens left =>
      known lexeme.token.line ∧ token = lexeme.token ∧ tokens = [lexeme.token] ∧ left = rest := by
  refine fun located => ⟨[lexeme], rfl, ?_, located.lines lexeme List.mem_cons_self, rfl, rfl, rfl⟩
  intro other member
  rw [List.mem_singleton.mp member, isKind]
  exact notEnd

theorem reads_advance
    {next : Token → Parser α}
    (isKind : lexeme.token.kind = kind)
    (notEnd : kind ≠ .endOfInput)
    (reads : known lexeme.token.line → Reads known (next lexeme.token) rest fun value tokens =>
      post value (lexeme.token :: tokens)) :
    Reads known (advance >>= next) (lexeme :: rest) post := by
  refine (reads_token isKind notEnd).bind fun token tokens left _ holds => ?_
  obtain ⟨here, rfl, rfl, rfl⟩ := holds
  exact reads here

/-- A token that a rule asks for is taken when it is there. -/
theorem reads_expect
    {next : Token → Parser α}
    (notEnd : item.kind ≠ .endOfInput)
    (reads : ∀ lexeme rest, input = lexeme :: rest → lexeme.token.kind = item.kind →
      known lexeme.token.line →
        Reads known (next lexeme.token) rest fun value tokens =>
          post value (lexeme.token :: tokens)) :
    Reads known (expect item >>= next) input post := by
  have step : Reads known (expect item) input fun token tokens left =>
      ∃ lexeme, input = lexeme :: left ∧ lexeme.token.kind = item.kind ∧
        known lexeme.token.line ∧ token = lexeme.token ∧ tokens = [lexeme.token] := by
    refine reads_peek ?_
    split
    next isKind =>
      obtain ⟨lexeme, rest, rfl, isItem⟩ := exists_of_nextToken isKind notEnd
      refine (reads_token isItem notEnd).mono fun token tokens left _ holds => ?_
      obtain ⟨here, rfl, rfl, rfl⟩ := holds
      exact ⟨lexeme, rfl, isItem, here, rfl, rfl⟩
    next => exact reads_failHere _
  refine step.bind fun token tokens left _ holds => ?_
  obtain ⟨lexeme, isInput, isItem, here, rfl, rfl⟩ := holds
  exact reads lexeme left isInput isItem here

/-- A closing bracket is taken when it is there, or its partner is told of. -/
theorem reads_close
    {next : Unit → Parser α}
    (opened : known line)
    (notEnd : kind ≠ .endOfInput)
    (reads : ∀ lexeme rest, input = lexeme :: rest → lexeme.token.kind = kind →
      Reads known (next ()) rest fun value tokens => post value (lexeme.token :: tokens)) :
    Reads known (close kind line brackets >>= next) input post := by
  have step : Reads known (close kind line brackets) input fun _ tokens left =>
      ∃ lexeme, input = lexeme :: left ∧ lexeme.token.kind = kind ∧ tokens = [lexeme.token] := by
    refine reads_at ?_
    split
    next isKind =>
      obtain ⟨lexeme, rest, rfl, isItem⟩ := exists_of_nextToken (of_decide_eq_true isKind) notEnd
      exact reads_advance isItem notEnd fun _ => reads_pure ⟨lexeme, rfl, isItem, rfl⟩
    next => exact reads_fail opened _
  refine step.bind fun _ tokens left _ holds => ?_
  obtain ⟨lexeme, isInput, isKind, rfl⟩ := holds
  exact reads lexeme left isInput isKind

theorem reads_semicolon
    {next : Unit → Parser α}
    (reads : ∀ lexeme rest, input = lexeme :: rest → lexeme.token.kind = .semicolon →
      Reads known (next ()) rest fun value tokens => post value (lexeme.token :: tokens)) :
    Reads known (semicolon >>= next) input post := by
  have step : Reads known semicolon input fun _ tokens left =>
      ∃ lexeme, input = lexeme :: left ∧ lexeme.token.kind = .semicolon ∧
        tokens = [lexeme.token] := by
    refine reads_expect (by decide) fun lexeme rest isInput isKind _ => ?_
    exact reads_pure ⟨lexeme, isInput, isKind, rfl⟩
  refine step.bind fun _ tokens left _ holds => ?_
  obtain ⟨lexeme, isInput, isKind, rfl⟩ := holds
  exact reads lexeme left isInput isKind

end Parser

/-!
## Readers that take what is there

A reader takes a sequence of tokens when it gives a value and leaves what stands behind them,
whatever that is as long as the next token does not belong to the sequence too. Which tokens may
come next is said by their categories.
-/

namespace Parser

/--
A reader takes tokens and gives a value for them in every input that starts with them and goes on
with a token of one of the categories that may follow.
-/
def Takes (reader : Parser α) (tokens : List Token) (value : α)
    (follows : Token.Kind → Prop) : Prop :=
  ∀ used rest, used.map Lexeme.token = tokens → follows (nextToken rest).kind →
    reader (used ++ rest) = .ok (value, rest)

/-- What may follow a sequence of tokens, given what its last part may be followed by. -/
def Meets (tokens : List Token) (last follows : Token.Kind → Prop) : Prop :=
  match tokens with
  | [] => ∀ kind, last kind → follows kind
  | token :: _ => follows token.kind

variable
    {follows last : Token.Kind → Prop}
    {front back tokens : List Token}

/-- The category of the token behind a sequence is the first one of what stands there. -/
theorem Meets.next
    {used rest : List Lexeme}
    (meets : Meets tokens last follows)
    (isTokens : used.map Lexeme.token = tokens)
    (isLast : last (nextToken rest).kind) :
    follows (nextToken (used ++ rest)).kind := by
  cases used with
  | nil =>
      subst isTokens
      exact meets _ isLast
  | cons lexeme used =>
      subst isTokens
      exact meets

theorem Takes.mono
    {value : α}
    (takes : Takes reader tokens value follows)
    (implies : ∀ kind, last kind → follows kind) :
    Takes reader tokens value last :=
  fun used rest isTokens isLast => takes used rest isTokens (implies _ isLast)

/-- A reader that goes on behind another one takes what both take. -/
theorem Takes.bind
    {next : α → Parser β}
    {value : α}
    {result : β}
    (first : Takes reader front value follows)
    (meets : Meets back last follows)
    (second : Takes (next value) back result last) :
    Takes (reader >>= next) (front ++ back) result last := by
  intro used rest isTokens isLast
  obtain ⟨start, behind, rfl, isFront, isBack⟩ := List.map_eq_append_iff.mp isTokens
  have run : (reader >>= next) (start ++ behind ++ rest) =
      (reader (start ++ behind ++ rest) >>= fun pair => next pair.1 pair.2) := rfl
  rw [run, List.append_assoc, first start (behind ++ rest) isFront (meets.next isBack isLast)]
  exact second behind rest isBack isLast

theorem takes_pure
    {value : α} :
    Takes (pure value) [] value last := by
  intro used rest isEmpty _
  rw [List.map_eq_nil_iff] at isEmpty
  subst isEmpty
  rfl

theorem takes_pure_bind
    {value : α}
    {next : α → Parser β}
    {result : β}
    (takes : Takes (next value) tokens result last) :
    Takes (pure value >>= next) tokens result last :=
  takes

/-- A reader that takes nothing behind another one. -/
theorem Takes.finish
    {reader : Parser α}
    {next : α → Parser β}
    {value : α}
    {result : β}
    (first : Takes reader tokens value follows)
    (implies : ∀ kind, last kind → follows kind)
    (second : Takes (next value) [] result last) :
    Takes (reader >>= next) tokens result last := by
  rw [← List.append_nil tokens]
  exact first.bind implies second

variable
    {token : Token}

/-- A reader that looks at a token in front of it sees that token. -/
theorem takes_peek
    {next : Token → Parser α}
    {value : α}
    (takes : Takes (next token) (token :: tokens) value last) :
    Takes (peek >>= next) (token :: tokens) value last := by
  intro used rest isTokens isLast
  obtain ⟨lexeme, others, rfl, rfl, -⟩ := List.map_eq_cons_iff.mp isTokens
  exact takes (lexeme :: others) rest isTokens isLast

/-- A reader that looks behind what it takes sees a token that may follow. -/
theorem takes_peek_behind
    {next : Token → Parser α}
    {value : α}
    (takes : ∀ token, last token.kind → Takes (next token) [] value (· = token.kind)) :
    Takes (peek >>= next) [] value last := by
  intro used rest isTokens isLast
  rw [List.map_eq_nil_iff] at isTokens
  subst isTokens
  have run : (peek >>= next) ([] ++ rest) = next (nextToken rest) ([] ++ rest) := by
    cases rest <;> rfl
  rw [run]
  exact takes _ isLast [] rest rfl rfl

theorem takes_at
    {next : Bool → Parser α}
    {value : α}
    (takes : Takes (next (decide (token.kind = kind))) (token :: tokens) value last) :
    Takes (at? kind >>= next) (token :: tokens) value last := by
  rw [at_bind]
  exact takes_peek takes

theorem takes_at_behind
    {next : Bool → Parser α}
    {value : α}
    (never : ∀ other, last other → other ≠ kind)
    (takes : Takes (next false) [] value last) :
    Takes (at? kind >>= next) [] value last := by
  rw [at_bind]
  refine takes_peek_behind fun token isLast => ?_
  rw [decide_eq_false (never _ isLast)]
  exact takes.mono fun other isKind => isKind ▸ isLast

theorem takes_advance
    {next : Token → Parser α}
    {value : α}
    (takes : Takes (next token) tokens value last) :
    Takes (advance >>= next) (token :: tokens) value last := by
  intro used rest isTokens isLast
  obtain ⟨lexeme, others, rfl, rfl, isOthers⟩ := List.map_eq_cons_iff.mp isTokens
  exact takes others rest isOthers isLast

theorem takes_expect
    {next : Token → Parser α}
    {value : α}
    (isItem : token.kind = item.kind)
    (takes : Takes (next token) tokens value last) :
    Takes (expect item >>= next) (token :: tokens) value last := by
  have step : Takes (expect item) [token] token fun _ => True := by
    refine takes_peek ?_
    rw [if_pos isItem, ← bind_pure advance]
    exact takes_advance takes_pure
  refine step.bind ?_ takes
  cases tokens <;> simp [Meets]

theorem takes_close
    {next : Unit → Parser α}
    {value : α}
    (isKind : token.kind = kind)
    (takes : Takes (next ()) tokens value last) :
    Takes (close kind line brackets >>= next) (token :: tokens) value last := by
  have step : Takes (close kind line brackets) [token] () fun _ => True := by
    refine takes_at ?_
    rw [if_pos (decide_eq_true isKind)]
    exact takes_advance takes_pure
  refine step.bind ?_ takes
  cases tokens <;> simp [Meets]

theorem takes_semicolon
    {next : Unit → Parser α}
    {value : α}
    (isKind : token.kind = .semicolon)
    (takes : Takes (next ()) tokens value last) :
    Takes (semicolon >>= next) (token :: tokens) value last := by
  have step : Takes semicolon [token] () fun _ => True := takes_expect isKind takes_pure
  refine step.bind ?_ takes
  cases tokens <;> simp [Meets]

end Parser

end IlsCompiler
