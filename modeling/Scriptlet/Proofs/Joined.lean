/-
This file reads texts that are joined by line feeds. When every text but the last one ends in a
semicolon or has no tokens at all, the joined text is read without errors if the single texts
are, and its statements are theirs, one text after the other and up to positions.

Where one text meets the next, the reader has to stop as it did at the end of the input. The
last statement of a text ends in its semicolon, and an expression never does, so the reader of
every expression has a token of its own text ahead when it stops. It stays clear of the end,
and what follows there makes no difference to it.
-/

import Scriptlet.Proofs.Mirror
import Scriptlet.Proofs.Seam

namespace Scriptlet

/-! ### Expressions do not end in a semicolon -/

namespace Grammar

/-- There is a last token, and it is no semicolon. -/
def EndsInside (tokens : List Token) : Prop :=
  ∃ last, tokens.getLast? = some last ∧ last.kind ≠ .semicolon

theorem endsInside_singleton {token : Token} (kind : token.kind ≠ .semicolon) :
    EndsInside [token] :=
  ⟨token, rfl, kind⟩

theorem EndsInside.append {tokens : List Token} (ends : EndsInside tokens) (front : List Token) :
    EndsInside (front ++ tokens) := by
  obtain ⟨last, listed, kind⟩ := ends
  refine ⟨last, ?_, kind⟩
  rw [List.getLast?_append, listed]
  rfl

theorem EndsInside.cons {tokens : List Token} (ends : EndsInside tokens) (token : Token) :
    EndsInside (token :: tokens) :=
  ends.append [token]

/-- A phrase that ends in a closing token. -/
theorem endsInside_closing {closing : Token} (kind : closing.kind ≠ .semicolon)
    (opening : Token) (tokens : List Token) : EndsInside (opening :: (tokens ++ [closing])) :=
  ((endsInside_singleton kind).append tokens).cons opening

/-- How the phrases that can stand at the end of an expression end. -/
def Phrase.EndsInside : Phrase → List Token → Prop
  | expression _, tokens | block, tokens => Grammar.EndsInside tokens
  | alternative, tokens => tokens = [] ∨ Grammar.EndsInside tokens
  | _, _ => True

theorem Derives.endsInside {separation : Separation} {phrase : Phrase} {tokens : List Token}
    {nodes : List Node} (derivation : Derives separation phrase tokens nodes) :
    phrase.EndsInside tokens := by
  induction derivation with
  | tighten _ _ inner => exact inner
  | binary _ _ _ _ _ right => exact (right.cons _).append _
  | unary _ _ inner => exact inner.cons _
  | call _ closes | index _ closes => exact (endsInside_closing (by simp [closes]) _ _).append _
  | @leaf token member =>
    refine endsInside_singleton fun semicolon => ?_
    rw [semicolon] at member
    exact absurd member (by decide)
  | integer kind => exact endsInside_singleton (by simp [kind])
  | group _ closes | array _ closes | hash _ closes | block _ closes =>
    exact endsInside_closing (by simp [closes]) _ _
  | conditional _ _ _ _ _ _ _ block other =>
    refine (((?_ : EndsInside _).cons _).append _).cons _ |>.cons _
    rcases other with rfl | other
    · rw [List.append_nil]
      exact block
    · exact other.append _
  | function _ _ _ _ block => exact (block.append _).cons _
  | noAlternative => exact .inl rfl
  | someAlternative _ _ inner => exact .inr (inner.cons _)
  | oneExpression | moreExpressions | noItems | someItems | oneName | moreNames | noParameters
  | someParameters | noPairs | lastPair | morePairs | letStatement | returnStatement
  | expressionStatement | noStatements | terminated | unterminated => trivial

end Grammar

/-! ### Windows whose text ends in a semicolon -/

namespace Window

variable {more : List (TokenKind × String)} {window longer after : Window}

/-- The tokens that are left, if any, end in a semicolon. -/
def Sealed (window : Window) : Prop :=
  ∀ token ∈ window.tokens.getLast?, token.kind = .semicolon

theorem Sealed.of_leads (closed : window.Sealed) (leads : window.Leads after) : after.Sealed := by
  obtain ⟨front, split⟩ := leads.tokens
  intro token last
  refine closed token ?_
  rw [← split, List.getLast?_append, Option.mem_def.mp last]
  rfl

theorem Sealed.advance (closed : window.Sealed) : window.advance.Sealed :=
  closed.of_leads window.leads_advance

theorem Extends.behindSemicolon (shows : window.Extends more longer) (clear : window.Clear more) :
    window.behindSemicolon.Extends more longer.behindSemicolon := by
  have kind : longer.ahead.kind = window.ahead.kind := (Prod.mk.inj (shows.ahead clear)).1
  rw [Window.behindSemicolon, Window.behindSemicolon, kind]
  split
  · exact shows.advance clear.unread
  · exact shows

theorem tokens_behindSemicolon_ne_nil (enough : 2 ≤ window.tokens.length) :
    window.behindSemicolon.tokens ≠ [] := by
  intro nothing
  have length := congrArg List.length nothing
  rw [Window.behindSemicolon] at length
  split at length
  · rw [tokens_advance, List.length_tail, List.length_nil] at length
    omega
  · rw [List.length_nil] at length
    omega

end Window

namespace Parser

open Window

variable {more : List (TokenKind × String)} {window longer after : Window} {fuel fuel' : Nat}

/-- At the end of an expression a token of its own text is ahead. -/
theorem two_le_of_reads_expression {rank : Precedence} {node : Node} (proper : window.Proper)
    (closed : window.Sealed) (reads : Reads (expression fuel rank) window node after) :
    2 ≤ after.tokens.length := by
  obtain ⟨⟨tokens, spanned, derived⟩, -⟩ := (soundOn fuel).expression proper reads
  obtain ⟨last, listed, kind⟩ := derived.endsInside
  by_contra few
  have nothing : after.advance.tokens = [] := by
    rw [← List.length_eq_zero_iff, tokens_advance, List.length_tail]
    omega
  rw [nothing, List.append_nil] at spanned
  rw [← spanned] at listed
  exact kind (closed last listed)

/-- An expression is read in the same way when more tokens follow its text. -/
theorem mirrored_expression (enough : fuel ≤ fuel') (clear : after.Clear more)
    (shows : window.Extends more longer) {node : Node}
    (reads : Reads (expression fuel .lowest) window node after) :
    ∃ node' after', Reads (expression fuel' .lowest) longer node' after' ∧ node.Alike node' ∧
      after.behindSemicolon.Extends more after'.behindSemicolon := by
  obtain ⟨node', after', reads', same, showsOn⟩ :=
    (allMirror more fuel).expression enough .lowest _ _ _ _ reads clear shows
  exact ⟨node', after', reads', same, showsOn.behindSemicolon clear⟩

/-- So is a statement, and it does not pass the last token of its text. -/
theorem mirrored_statement (enough : fuel ≤ fuel') (proper : window.Proper)
    (closed : window.Sealed) (shows : window.Extends more longer) {result : Option Node}
    (reads : Reads (statement fuel) window result after) :
    after.tokens ≠ [] ∧ ∃ result' after', Reads (statement fuel') longer result' after' ∧
      Option.Rel Node.Alike result result' ∧ after.Extends more after' := by
  cases fuel with
  | zero =>
    simp only [statement] at reads
    exact absurd reads not_reads_record_bind
  | succ fuel =>
    obtain ⟨fuel', rfl⟩ := Nat.exists_eq_add_of_le' (Nat.le_trans (Nat.le_add_left 1 fuel) enough)
    replace enough := Nat.le_of_succ_le_succ enough
    by_cases isLet : window.current.kind = .letWord
    · obtain ⟨name, equals, value, between, valueReads, rfl, rfl⟩ :=
        (reads_letStatement isLet).mp reads
      have two := two_le_of_reads_expression proper.advance.advance.advance
        closed.advance.advance.advance valueReads
      have clear : between.Clear more := .inr two
      have clearEquals := (clear.of_leads valueReads.leads).of_leads (leads_advance _)
      have clearName := clearEquals.of_leads (leads_advance _)
      have clearWord := clearName.of_leads (leads_advance _)
      have showsName := shows.advance clearWord.unread
      have showsEquals := showsName.advance clearName.unread
      obtain ⟨kind, text⟩ := Prod.mk.inj (shows.current clearWord.unread)
      obtain ⟨nameKind, nameText⟩ := Prod.mk.inj (shows.ahead clearWord)
      obtain ⟨equalsKind, -⟩ := Prod.mk.inj (showsName.ahead clearName)
      obtain ⟨value', between', valueReads', same, showsOn⟩ :=
        mirrored_expression enough clear (showsEquals.advance clearEquals.unread) valueReads
      refine ⟨tokens_behindSemicolon_ne_nil two, _, _, (reads_letStatement (kind.trans isLet)).mpr
        ⟨nameKind.trans name, equalsKind.trans equals, value', between', valueReads', rfl, rfl⟩,
        .some (alike_tree ?_), showsOn⟩
      exact .cons (alike_ofToken (shows.current clearWord.unread).symm)
        (.cons (alike_ofToken (shows.ahead clearWord).symm) (.cons same .nil))
    · by_cases isReturn : window.current.kind = .returnWord
      · obtain ⟨value, between, valueReads, rfl, rfl⟩ := (reads_returnStatement isReturn).mp reads
        have two := two_le_of_reads_expression proper.advance closed.advance valueReads
        have clear : between.Clear more := .inr two
        have unread := ((clear.of_leads valueReads.leads).of_leads (leads_advance _)).unread
        obtain ⟨value', between', valueReads', same, showsOn⟩ :=
          mirrored_expression enough clear (shows.advance unread) valueReads
        have word := shows.current unread
        refine ⟨tokens_behindSemicolon_ne_nil two, _, _,
          (reads_returnStatement ((Prod.mk.inj word).1.trans isReturn)).mpr
            ⟨value', between', valueReads', rfl, rfl⟩,
          .some (alike_tree (.cons (alike_ofToken word.symm) (.cons same .nil))), showsOn⟩
      · obtain ⟨value, between, valueReads, rfl, rfl⟩ :=
          (reads_expressionStatement isLet isReturn).mp reads
        have two := two_le_of_reads_expression proper closed valueReads
        have clear : between.Clear more := .inr two
        have unread := (clear.of_leads valueReads.leads).unread
        obtain ⟨value', between', valueReads', same, showsOn⟩ :=
          mirrored_expression enough clear shows valueReads
        have kind := (Prod.mk.inj (shows.current unread)).1
        rw [← kind] at isLet isReturn
        exact ⟨tokens_behindSemicolon_ne_nil two, _, _,
          (reads_expressionStatement isLet isReturn).mpr ⟨value', between', valueReads', rfl, rfl⟩,
          .some (alike_tree (.cons same .nil)), showsOn⟩

/-- Behind the statements of a sealed text come those of the text that follows. Each statement
uses up a token, so the fuel that is left at the seam suffices for the rest. -/
theorem mirrored_statements {second last : Window} {least : Nat} {nodes others : List Node}
    (proper : window.Proper) (closed : window.Sealed)
    (shows : window.Extends (second.tokens.map Token.bare) longer)
    (closing : window.closing.bare = second.closing.bare)
    (reads : Reads (statements fuel false) window nodes after)
    (readsOn : Reads (statements least false) second others last) (enough : fuel ≤ fuel')
    (enoughOn : window.tokens.length + least ≤ fuel') :
    ∃ joined after', Reads (statements fuel' false) longer joined after' ∧
      AllAlike (nodes ++ others) joined := by
  induction fuel generalizing fuel' window longer nodes with
  | zero =>
    simp only [statements] at reads
    exact absurd reads not_reads_record_bind
  | succ fuel inductionHypothesis =>
    obtain ⟨ended | ⟨impossible, -⟩, rfl, rfl⟩ | ⟨goesOn, first, between, firstReads, rest,
      restReads, rfl⟩ := reads_statements.mp reads
    · have nothing := proper.current_of_endOfInput ended
      have seam : second.Extends [] longer := by
        refine ⟨?_, shows.closing.trans closing⟩
        rw [shows.tokens, nothing, List.append_nil]
        rfl
      obtain ⟨joined, after', readsJoined, same, -⟩ :=
        (allMirror [] least).statements (Nat.le_trans (Nat.le_add_left _ _) enoughOn) false _ _ _ _
          readsOn (.inl rfl) seam
      exact ⟨joined, after', readsJoined, same⟩
    · cases impossible
    · obtain ⟨fuel', rfl⟩ :=
        Nat.exists_eq_add_of_le' (Nat.le_trans (Nat.le_add_left 1 fuel) enough)
      obtain ⟨unread, first', between', firstReads', same, showsOn⟩ :=
        mirrored_statement (Nat.le_of_succ_le_succ enough) proper closed shows firstReads
      have leads := firstReads.leads
      have shorter : between.advance.tokens.length < window.tokens.length := by
        have fewer := leads.tokens.length_le
        have some := List.length_pos_iff.mpr unread
        rw [tokens_advance, List.length_tail]
        omega
      obtain ⟨joined, after', restReads', sameRest⟩ :=
        inductionHypothesis (proper.of_leads leads).advance (closed.of_leads leads).advance
          (showsOn.advance (.inr unread)) (leads.closing ▸ closing) restReads
          (Nat.le_of_succ_le_succ enough) (by omega)
      have goesOn' : ¬ (longer.current.kind = .endOfInput ∨
          (false = true ∧ longer.current.kind = .rightBrace)) := by
        have some : window.tokens ≠ [] := fun nothing => by simp [nothing] at shorter
        rw [(Prod.mk.inj (shows.current (.inr some))).1]
        exact goesOn
      refine ⟨first'.toList ++ joined, after',
        reads_statements.mpr (.inr ⟨goesOn', first', between', firstReads', joined, restReads',
          rfl⟩), ?_⟩
      cases same with
      | none => exact sameRest
      | some same => exact .cons same sameRest

end Parser

/-! ### Joined texts -/

/-- A text has no errors exactly when its statements are read without one. -/
theorem errors_readSource_eq_nil_iff {text : String} :
    (readSource text).errors = [] ↔ ∃ nodes after,
      Parser.Reads (Parser.statements (Window.ofText text).fuel false) (Window.ofText text) nodes
        after ∧ (readSource text).program = .tree .program nodes := by
  constructor
  · exact fun accepted => ⟨_, _, ⟨rfl, accepted⟩, rfl⟩
  · rintro ⟨nodes, after, ⟨runs, clean⟩, -⟩
    rw [← (Prod.mk.inj runs).2] at clean
    exact clean

/-- Two texts of which the first one ends in a semicolon or has no tokens. -/
theorem readSource_joined {first second : String} (accepted : (readSource first).errors = [])
    (acceptedOn : (readSource second).errors = []) (noNul : '\x00' ∉ first.toList)
    (closed : ∀ token ∈ (sourceTokens first).getLast?, token.kind = .semicolon) :
    (readSource (first ++ "\n" ++ second)).errors = [] ∧
      Parser.AllAlike ((readSource first).program.children ++ (readSource second).program.children)
        (readSource (first ++ "\n" ++ second)).program.children := by
  have shows : (Window.ofText first).Extends ((Window.ofText second).tokens.map Token.bare)
      (Window.ofText (first ++ "\n" ++ second)) := by
    constructor
    · have plain : ∀ token ∈ (sourceTokens first).getLast?, token.kind ≠ .string := by
        intro token last string
        rw [closed token last] at string
        cases string
      have split : (Cursor.ofText (first ++ "\n" ++ second)).rest =
          (Cursor.ofText first).rest ++ '\n' :: (Cursor.ofText second).rest := by
        simp [Cursor.ofText]
      rw [← List.map_append]
      exact scansTo_joined (Cursor.ofText first) noNul plain (scansTo_scan _) _ split
    · exact (Cursor.bare_closing_scan _).trans (Cursor.bare_closing_scan _).symm
  have lengths := congrArg List.length shows.tokens
  rw [List.length_append, List.length_map, List.length_map, List.length_map] at lengths
  have closing : (Window.ofText first).closing.bare = (Window.ofText second).closing.bare :=
    (Cursor.bare_closing_scan _).trans (Cursor.bare_closing_scan _).symm
  obtain ⟨nodes, after, reads, listed⟩ := errors_readSource_eq_nil_iff.mp accepted
  obtain ⟨others, last, readsOn, listedOn⟩ := errors_readSource_eq_nil_iff.mp acceptedOn
  obtain ⟨joined, final, readsJoined, same⟩ :=
    Parser.mirrored_statements (Window.proper_ofText first) closed shows closing reads readsOn
      (show _ ≤ (Window.ofText (first ++ "\n" ++ second)).fuel by unfold Window.fuel; omega)
      (by unfold Window.fuel; omega)
  have children : (readSource (first ++ "\n" ++ second)).program.children = joined :=
    (Prod.mk.inj readsJoined.1).1
  rw [listed, listedOn, children]
  exact ⟨errors_readSource_eq_nil_iff.mpr ⟨joined, final, readsJoined, congrArg _ children⟩, same⟩

/-- Take texts without syntax errors. When each one but the last has no NUL, and has no tokens
or ends in a semicolon, then joined by line feeds they have no syntax errors either, and the
statements are those of the texts, up to positions. -/
theorem readSource_intercalate {texts : List String}
    (accepted : ∀ text ∈ texts, (readSource text).errors = [])
    (noNul : ∀ text ∈ texts.dropLast, '\x00' ∉ text.toList)
    (closed : ∀ text ∈ texts.dropLast, ∀ token ∈ (sourceTokens text).getLast?,
      token.kind = .semicolon) :
    (readSource ("\n".intercalate texts)).errors = [] ∧
      Parser.AllAlike (texts.flatMap fun text => (readSource text).program.children)
        (readSource ("\n".intercalate texts)).program.children := by
  induction texts with
  | nil =>
    have nothing : (readSource "").errors = [] ∧ (readSource "").program.children = [] := by
      decide +kernel
    rw [String.intercalate_nil, nothing.2]
    exact ⟨nothing.1, .nil⟩
  | cons text rest inductionHypothesis =>
    rw [List.forall_mem_cons] at accepted
    cases rest with
    | nil =>
      rw [String.intercalate_singleton, List.flatMap_singleton]
      exact ⟨accepted.1, List.forall₂_same.mpr fun _ _ => rfl⟩
    | cons second others =>
      rw [List.dropLast_cons_cons, List.forall_mem_cons] at noNul closed
      obtain ⟨acceptedOn, sameOn⟩ := inductionHypothesis accepted.2 noNul.2 closed.2
      obtain ⟨joined, same⟩ := readSource_joined accepted.1 acceptedOn noNul.1 closed.1
      rw [String.intercalate_cons_of_ne_nil (List.cons_ne_nil _ _)]
      refine ⟨joined, ?_⟩
      rw [Parser.allAlike_iff, List.map_append] at same
      rw [Parser.allAlike_iff] at sameOn ⊢
      rw [List.flatMap_cons, List.map_append, sameOn]
      exact same

/-- Without the semicolon the second text can become a part of the last statement before it. -/
example : (readSource "f").errors = [] ∧ (readSource "(1)").errors = [] ∧
    (readSource "f\n(1)").program.children.length = 1 := by
  decide +kernel

end Scriptlet
