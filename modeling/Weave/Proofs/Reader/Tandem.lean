import Weave.Proofs.Reader

namespace Weave

open Reader

/-!
# Readers in tandem

Two readers run in tandem on tokens that fit each other one by one, up to an end on either side.
Both leave tokens that fit, or they refuse for causes that stand for each other.  What fits and
which causes stand for each other is left open, so that one pass over the grammar serves all
comparisons of two readings.  The values that are read are the same if the comparison is strict, so
that only equal tokens fit; otherwise they are not compared, as what they are follows from the
tokens that they are derived from.

With fewer tokens than `bound` in front of the end, `tandem.Reads bound taken` takes at least a
given number of them; so a loop that takes a token in every round ends before its fuel does.
-/

variable {other start token : Token} {left more fewer : Nat} {kind : Token.Kind}

/-- What a reader holds against the token that it finds. -/
inductive Blame where
  | expected (wanted : Token.Kind)
  | unexpected
  | notACase
  | missingElse
  | trailing

/-- The fault of a token. -/
def Blame.fault : Blame → Token → ParseFault
  | .expected wanted, token => .expected wanted token.kind token.position
  | .unexpected, token => .unexpectedToken token.kind token.position
  | .notACase, token => .notACase token.position
  | .missingElse, token => .missingElse token.position
  | .trailing, token => .trailingTokens token.position

/-- How two readings are compared: which tokens fit each other, and which tokens meet, with so many
in front of their ends. -/
structure Tandem where
  fits : Token → Token → Prop
  meets : Nat → List Token → List Token → Prop
  strict : Prop
  refuses : ParseFault → ParseFault → Prop
  head : ∀ {count tokens others}, meets count tokens others →
    ∃ start rest other more, tokens = start :: rest ∧ others = other :: more ∧ fits start other
  tail : ∀ {count start tokens other others}, meets count (start :: tokens) (other :: others) →
    start.kind ≠ .finish → ∃ fewer, count = fewer + 1 ∧ meets fewer tokens others
  same : ∀ {first second}, fits first second → strict → second = first
  kind : ∀ {first second}, fits first second → second.kind = first.kind
  lexeme : ∀ {first second}, fits first second → second.lexeme = first.lexeme
  blames : ∀ {first second}, fits first second →
    ∀ blame : Blame, refuses (blame.fault first) (blame.fault second)
  noCases : refuses .noCases .noCases
  recovers : ∀ {fault other}, refuses fault other → other.isRecoverable = fault.isRecoverable

namespace Tandem

/-- Two readings of tokens that fit: both leave tokens that fit, with at least a given number taken,
or refuse. -/
inductive Outcome (tandem : Tandem) (taken count : Nat)
    (first second : Except ParseFault (α × List Token)) :
    Prop
  | read {value other : α} {rest others : List Token} {left : Nat}
      (firstReads : first = .ok (value, rest)) (secondReads : second = .ok (other, others))
      (same : tandem.strict → other = value) (meets : tandem.meets left rest others)
      (isFewer : left + taken ≤ count) :
      Outcome tandem taken count first second
  | refused {fault other : ParseFault} (firstRefuses : first = .error fault)
      (secondRefuses : second = .error other) (refuses : tandem.refuses fault other) :
      Outcome tandem taken count first second

/-- The readers run in tandem on all tokens up to a number of them. -/
def Reads (tandem : Tandem) (bound taken : Nat) (first second : Reader α) : Prop :=
  ∀ count tokens others, tandem.meets count tokens others → count < bound →
    tandem.Outcome taken count (first tokens) (second others)

/-- The readers run in tandem behind a look at the next tokens. -/
def ReadsFrom (tandem : Tandem) (start other : Token) (bound taken : Nat)
    (first second : Reader α) :
    Prop :=
  ∀ count tokens others, tandem.meets count (start :: tokens) (other :: others) → count < bound →
    tandem.Outcome taken count (first (start :: tokens)) (second (other :: others))

/-- The readers of what may follow run in tandem: if nothing is found, all tokens are left to what
comes next, and otherwise there is one less. -/
def ReadsIfAny (tandem : Tandem) (bound : Nat) (first second : Reader (Option α)) : Prop :=
  ∀ firstNext secondNext : Option α → Reader α,
    (∀ value other, (tandem.strict → other = value) →
      tandem.Reads bound 0 (firstNext (some value)) (secondNext (some other))) →
      tandem.Reads (bound + 1) 0 (firstNext none) (secondNext none) →
        tandem.Reads (bound + 1) 0 (first >>= firstNext) (second >>= secondNext)

/-- A loop that takes a token in every round ends within as many rounds as there are tokens. -/
@[elab_as_elim]
theorem loop_induction {motive : Nat → Nat → Nat → Prop} {bound firstFuel secondFuel : Nat}
    (enough : bound ≤ firstFuel) (bounded : firstFuel ≤ secondFuel)
    (finished : ∀ firstLeft secondLeft, motive 0 firstLeft secondLeft) (round :
      ∀ left firstLeft secondLeft, left < bound → left ≤ firstLeft → firstLeft ≤ secondLeft →
        motive left firstLeft secondLeft → motive (left + 1) (firstLeft + 1) (secondLeft + 1)) :
    motive bound firstFuel secondFuel := by
  induction bound generalizing firstFuel secondFuel with
  | zero => exact finished firstFuel secondFuel
  | succ bound ih =>
    rcases firstFuel with _ | firstLeft
    · omega
    rcases secondFuel with _ | secondLeft
    · omega
    refine round bound firstLeft secondLeft (Nat.lt_succ_self bound) (by omega) (by omega) ?_
    exact ih (by omega) (by omega) fun left first second isLess =>
      round left first second (by omega)

variable {tandem : Tandem} {bound taken count : Nat} {first second : Reader α}
  {tokens others : List Token}

theorem isWord (fits : tandem.fits token other) (word : String) :
    other.isWord word = token.isWord word := by
  rw [Token.isWord, Token.isWord, tandem.kind fits, tandem.lexeme fits]

namespace Outcome

variable {firstFound secondFound : Except ParseFault (α × List Token)}

theorem idle (outcome : tandem.Outcome taken count firstFound secondFound) :
    tandem.Outcome 0 count firstFound secondFound := by
  cases outcome with
  | read firstReads secondReads same meets =>
    exact .read firstReads secondReads same meets (by omega)
  | refused firstRefuses secondRefuses refuses => exact .refused firstRefuses secondRefuses refuses

/-- What goes on with fewer tokens has taken those in between as well. -/
theorem behind (outcome : tandem.Outcome taken fewer firstFound secondFound)
    (isFewer : fewer + more ≤ count) :
    tandem.Outcome (more + taken) count firstFound secondFound := by
  cases outcome with
  | read firstReads secondReads same meets =>
    exact .read firstReads secondReads same meets (by omega)
  | refused firstRefuses secondRefuses refuses => exact .refused firstRefuses secondRefuses refuses

/-- What follows goes on where the first reading stopped. -/
theorem bind {firstNext secondNext : α → Reader β}
    (outcome : tandem.Outcome taken count (first tokens) (second others))
    (next : ∀ value other, (tandem.strict → other = value) →
      tandem.Reads left more (firstNext value) (secondNext other))
    (enough : count < left + taken) :
    tandem.Outcome (taken + more) count ((first >>= firstNext) tokens)
      ((second >>= secondNext) others) := by
  rw [run_bind, run_bind]
  cases outcome with
  | refused firstRefuses secondRefuses refuses =>
    rw [firstRefuses, secondRefuses]
    exact .refused rfl rfl refuses
  | read firstReads secondReads same meets isFewer =>
    rw [firstReads, secondReads]
    exact (next _ _ same _ _ _ meets (by omega)).behind isFewer

end Outcome

namespace Reads

/-- There is always an end. -/
theorem of_zero : tandem.Reads 0 taken first second :=
  fun _ _ _ _ isLess => absurd isLess (Nat.not_lt_zero _)

theorem weaken (reads : tandem.Reads bound taken first second) (isFewer : fewer ≤ bound) :
    tandem.Reads fewer taken first second :=
  fun _ _ _ meets isLess => reads _ _ _ meets (Nat.lt_of_lt_of_le isLess isFewer)

theorem idle (reads : tandem.Reads bound taken first second) : tandem.Reads bound 0 first second :=
  fun _ _ _ meets isLess => (reads _ _ _ meets isLess).idle

theorem done {value other : α} (same : tandem.strict → other = value) :
    tandem.Reads bound 0 (pure value) (pure other) :=
  fun _ _ _ meets _ => .read rfl rfl same meets (Nat.le_refl _)

theorem refuse {fault other : ParseFault} (refuses : tandem.refuses fault other) :
    tandem.Reads bound taken (throw fault : Reader α) (throw other) :=
  fun _ _ _ _ _ => .refused rfl rfl refuses

/-- What follows goes on where the first reader stopped. -/
theorem bind_taken (reads : tandem.Reads bound taken first second)
    (next : ∀ value other, (tandem.strict → other = value) →
      tandem.Reads left more (firstNext value) (secondNext other))
    (enough : bound ≤ left + taken) :
    tandem.Reads bound (taken + more) (first >>= firstNext) (second >>= secondNext) :=
  fun _ _ _ meets isLess =>
    (reads _ _ _ meets isLess).bind next (Nat.lt_of_lt_of_le isLess enough)

/-- What follows may go on with all tokens that are left. -/
theorem bind {firstNext secondNext : α → Reader β} (reads : tandem.Reads bound 0 first second)
    (next : ∀ value other, (tandem.strict → other = value) →
      tandem.Reads bound taken (firstNext value) (secondNext other)) :
    tandem.Reads bound taken (first >>= firstNext) (second >>= secondNext) :=
  Nat.zero_add taken ▸ reads.bind_taken next (Nat.le_refl bound)

/-- What follows a reader that takes a token has one token less to go on with. -/
theorem bind_less {firstNext secondNext : α → Reader β}
    (reads : tandem.Reads (bound + 1) 1 first second)
    (next : ∀ value other, (tandem.strict → other = value) →
      tandem.Reads bound 0 (firstNext value) (secondNext other)) :
    tandem.Reads (bound + 1) 1 (first >>= firstNext) (second >>= secondNext) :=
  reads.bind_taken next (Nat.le_refl _)

/-- What follows may take nothing. -/
theorem andThen {firstNext secondNext : α → Reader β}
    (reads : tandem.Reads bound taken first second)
    (next : ∀ value other, (tandem.strict → other = value) →
      tandem.Reads bound 0 (firstNext value) (secondNext other)) :
    tandem.Reads bound taken (first >>= firstNext) (second >>= secondNext) :=
  reads.bind_taken next (Nat.le_add_right bound taken)

theorem map {convert other : α → β} (reads : tandem.Reads bound taken first second)
    (same : tandem.strict → other = convert) :
    tandem.Reads bound taken (first >>= fun value => pure (convert value))
      (second >>= fun value => pure (other value)) :=
  reads.andThen fun _ _ sameValue => done fun isStrict => by rw [same isStrict, sameValue isStrict]

/-- What is looked at decides how to go on. -/
theorem peek (next : ∀ start other, tandem.fits start other →
      tandem.ReadsFrom start other bound taken (firstNext start) (secondNext other)) :
    tandem.Reads bound taken (peek >>= firstNext) (peek >>= secondNext) := by
  intro count tokens others meets isLess
  obtain ⟨start, rest, other, more, rfl, rfl, fits⟩ := tandem.head meets
  exact next start other fits _ _ _ meets isLess

/-- An expected token is taken. -/
theorem expect (notEnd : kind ≠ .finish) :
    tandem.Reads bound 1 (expect kind) (expect kind) := by
  intro count tokens others meets isLess
  obtain ⟨start, rest, other, more, rfl, rfl, fits⟩ := tandem.head meets
  have blamed := tandem.blames fits (.expected kind)
  rw [Blame.fault, Blame.fault] at blamed
  rw [run_expect, run_expect, tandem.kind fits] at *
  by_cases isKind : start.kind = kind
  · obtain ⟨fewer, rfl, areFit⟩ := tandem.tail meets (isKind ▸ notEnd)
    simp only [isKind, notEnd]
    exact .read rfl rfl (tandem.same fits) areFit (Nat.le_refl _)
  · simp only [isKind]
    exact .refused rfl rfl blamed

/-- An accepted token is taken, and otherwise nothing is. -/
theorem accept {firstNext secondNext : Bool → Reader α} (notEnd : kind ≠ .finish)
    (accepted : tandem.Reads bound 0 (firstNext true) (secondNext true))
    (left : tandem.Reads bound 0 (firstNext false) (secondNext false)) :
    tandem.Reads bound 0 (accept kind >>= firstNext) (accept kind >>= secondNext) := by
  intro count tokens others meets isLess
  obtain ⟨start, rest, other, more, rfl, rfl, fits⟩ := tandem.head meets
  rw [run_bind, run_bind, run_accept, run_accept, tandem.kind fits]
  by_cases isKind : start.kind = kind
  · obtain ⟨fewer, rfl, areFit⟩ := tandem.tail meets (isKind ▸ notEnd)
    simp only [isKind, notEnd]
    exact (accepted _ _ _ areFit (by omega)).behind (Nat.le_succ fewer)
  · simp only [isKind]
    exact left _ _ _ meets isLess

/-- What follows in either case runs in tandem as well. -/
theorem ifAny {firstMay secondMay : Reader (Option α)} {firstNext secondNext : Option α → Reader α}
    (reads : tandem.ReadsIfAny bound firstMay secondMay)
    (found : ∀ value other, (tandem.strict → other = value) →
      tandem.Reads bound 0 (firstNext (some value)) (secondNext (some other)))
    (ended : tandem.Reads (bound + 1) 0 (firstNext none) (secondNext none)) :
    tandem.Reads (bound + 1) 0 (firstMay >>= firstNext) (secondMay >>= secondNext) :=
  reads _ _ found ended

end Reads

namespace ReadsFrom

theorem of_reads (reads : tandem.Reads bound taken first second) :
    tandem.ReadsFrom start other bound taken first second :=
  fun _ _ _ => reads _ _ _

theorem idle (reads : tandem.ReadsFrom start other bound taken first second) :
    tandem.ReadsFrom start other bound 0 first second :=
  fun _ _ _ meets isLess => (reads _ _ _ meets isLess).idle

/-- The fault of a token that is looked at. -/
theorem refuse (blame : Blame) (fits : tandem.fits start other) :
    tandem.ReadsFrom start other bound taken (throw (blame.fault start) : Reader α)
      (throw (blame.fault other)) :=
  .of_reads (.refuse (tandem.blames fits blame))

/-- What was looked at is taken, and then there is one token less. -/
theorem take_less (fits : tandem.fits start other) (isKind : start.kind = kind)
    (notEnd : kind ≠ .finish) (next : tandem.Reads bound 0 (firstNext start) (secondNext other)) :
    tandem.ReadsFrom start other (bound + 1) 1 (take >>= firstNext)
      (take >>= secondNext) := by
  intro count tokens others meets isLess
  obtain ⟨fewer, rfl, areFit⟩ := tandem.tail meets (isKind ▸ notEnd)
  rw [take_bind (isKind ▸ notEnd), take_bind (by rwa [tandem.kind fits, isKind])]
  exact (next _ _ _ areFit (by omega)).behind (Nat.le_refl _)

theorem take (fits : tandem.fits start other) (isKind : start.kind = kind) (notEnd : kind ≠ .finish)
    (next : tandem.Reads bound 0 (firstNext start) (secondNext other)) :
    tandem.ReadsFrom start other bound 1 (take >>= firstNext) (take >>= secondNext) :=
  fun _ _ _ meets isLess =>
    take_less fits isKind notEnd next _ _ _ meets (Nat.lt_succ_of_lt isLess)

/-- Behind a refused attempt, the tokens are where they were. -/
theorem attempt_bind (reads : tandem.ReadsFrom start other bound taken first second)
    (succeeded : ∀ value other, (tandem.strict → other = value) →
      tandem.Reads bound 0 (firstNext (some value)) (secondNext (some other)))
    (refused : tandem.ReadsFrom start other bound taken (firstNext none) (secondNext none)) :
    tandem.ReadsFrom start other bound taken (attempt first >>= firstNext)
      (attempt second >>= secondNext) := by
  intro count tokens others meets isLess
  rw [run_bind, run_bind, run_attempt, run_attempt]
  cases reads _ _ _ meets isLess with
  | read firstReads secondReads same meets isFewer =>
    rw [firstReads, secondReads]
    exact (succeeded _ _ same _ _ _ meets (by omega)).behind isFewer
  | @refused fault _ firstRefuses secondRefuses refuses =>
    rw [firstRefuses, secondRefuses]
    have sameChance := tandem.recovers refuses
    cases recoverable : fault.isRecoverable with
    | true =>
      simpa only [sameChance, recoverable, if_true] using refused _ _ _ meets isLess
    | false =>
      simp only [sameChance, recoverable]
      exact .refused rfl rfl refuses

end ReadsFrom

/-! ## Items -/

section Items

variable {firstFuel secondFuel : Nat} {close : Token.Kind} (notEnd : close ≠ .finish)

include notEnd

theorem itemsUntil (item : tandem.Reads bound 1 first second) (enough : bound ≤ firstFuel)
    (bounded : firstFuel ≤ secondFuel) :
    tandem.Reads bound 1 (itemsUntil close first firstFuel)
      (itemsUntil close second secondFuel) := by
  refine loop_induction enough bounded (fun _ _ => .of_zero) ?_
  intro left firstLeft secondLeft isLess _ _ rest
  exact (item.weaken isLess).bind_less fun _ _ _ => .accept notEnd (.done (by grind))
    ((Reads.expect (by decide)).idle.bind fun _ _ _ => rest.idle.map (by grind))

theorem itemsThen (item : tandem.Reads bound 1 first second) (enough : bound ≤ firstFuel)
    (bounded : firstFuel ≤ secondFuel) :
    tandem.Reads bound 1 (itemsThen close first firstFuel)
      (itemsThen close second secondFuel) := by
  refine loop_induction enough bounded (fun _ _ => .of_zero) ?_
  intro left firstLeft secondLeft isLess _ _ rest
  exact (item.weaken isLess).bind_less fun _ _ _ => .accept (by decide) (rest.idle.map (by grind))
    ((Reads.expect notEnd).idle.map (by grind))

theorem optional {firstItems secondItems : Reader (List α)}
    (items : tandem.Reads bound 1 firstItems secondItems) :
    tandem.Reads bound 0 (optional close firstItems) (optional close secondItems) :=
  .accept notEnd (.done fun _ => rfl) items.idle

end Items

end Tandem

end Weave
