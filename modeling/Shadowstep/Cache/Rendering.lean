import Shadowstep.Cache.Lines

/-!
# Well-formed Cache-Control fields

The grammar of `Cache-Control` as data: tokens, quoted strings, the blanks a
sender may put around commas and equals signs, and empty elements. A field
written from a list of directives, in any layout of the grammar and over any
lines, parses to those directives (`parse_renderLines`).
-/

namespace Shadowstep

open Rust

/-! ## The grammar -/

/-- The `tchar`s of RFC 9110, in either letter case. -/
def isTokenChar (c : Char) : Bool :=
  c.isAlphanum || "!#$%&'*+-.^_|~".toList.contains c || c.toNat == 0x60

/-- A `token` (RFC 9110 section 5.6.2). -/
structure Token where
  text : Text
  nonempty : text ≠ []
  chars : ∀ c ∈ text, isTokenChar c = true

/-- Optional whitespace: spaces and tabs (RFC 9110 section 5.6.3). -/
structure Blanks where
  text : Text
  chars : ∀ c ∈ text, c = ' ' ∨ c = '\t'

/-- What stands for one character in a quoted string. -/
inductive QuotedItem where
  | plain (c : Char) (visible : c.toNat = 9 ∨ (32 ≤ c.toNat ∧ c.toNat < 127))
      (unquoted : c ≠ '"' ∧ c ≠ '\\')
  | escaped (c : Char) (visible : c.toNat = 9 ∨ (32 ≤ c.toNat ∧ c.toNat < 127))

/-- An item as it is written. -/
def QuotedItem.text : QuotedItem → Text
  | .plain c _ _ => [c]
  | .escaped c _ => ['\\', c]

/-- The argument of a directive. -/
inductive Argument where
  | token (word : Token)
  | quoted (items : List QuotedItem)

/-- What the parser is to return for an argument: the token, or the text
between the quotes with its escapes as written. -/
def Argument.value : Argument → Text
  | .token word => word.text
  | .quoted items => items.flatMap QuotedItem.text

/-- An argument as it is written. -/
def Argument.text : Argument → Text
  | .token word => word.text
  | .quoted items => '"' :: items.flatMap QuotedItem.text ++ ['"']

/-- An element of a list, with the blanks around it and around its equals
sign. -/
inductive Element where
  | empty (blanks : Blanks)
  | directive (before : Blanks) (name : Token) (argument : Option (Blanks × Blanks × Argument))
      (after : Blanks)

namespace Element

/-- The equals sign and the argument as they are written. -/
def argumentText : Option (Blanks × Blanks × Argument) → Text
  | none => []
  | some (left, right, argument) => left.text ++ '=' :: (right.text ++ argument.text)

/-- An element as it is written. -/
def text : Element → Text
  | empty blanks => blanks.text
  | directive before name argument after =>
    before.text ++ name.text ++ argumentText argument ++ after.text

/-- What the parser is to return for an element. -/
def parsed : Element → Option (Text × Option Text)
  | empty _ => none
  | directive _ name argument _ =>
    some (toAsciiLowercase name.text, argument.map fun written => written.2.2.value)

end Element

/-- A field line: its elements with a comma between them. -/
def renderText : List Element → Text
  | [] => []
  | [element] => element.text
  | element :: next :: rest => element.text ++ ',' :: renderText (next :: rest)

/-! ## What its characters are -/

theorem isTokenChar_bounds {c : Char} (token : isTokenChar c = true) :
    33 ≤ c.toNat ∧ c.toNat < 127 := by
  simp only [isTokenChar, Bool.or_eq_true, beq_iff_eq, List.contains_iff_mem] at token
  rcases token with (letter | mark) | accent
  · have ranges : c.isAlphanum = ((decide (65 ≤ c.val ∧ c.val ≤ 90) ||
        decide (97 ≤ c.val) && decide (c.val ≤ 122)) ||
        decide (48 ≤ c.val) && decide (c.val ≤ 57)) := rfl
    rw [ranges] at letter
    simp only [Bool.or_eq_true, Bool.and_eq_true, decide_eq_true_eq, UInt32.le_iff_toNat_le,
      Char.toNat_val, UInt32.reduceToNat] at letter
    omega
  · -- the marks are a list that can be gone through
    have bounds : ∀ mark ∈ "!#$%&'*+-.^_|~".toList, 33 ≤ mark.toNat ∧ mark.toNat < 127 := by decide
    exact bounds c mark
  · omega

/-- A character that no token has is not one of a token. -/
theorem ne_of_isTokenChar {c other : Char} (token : isTokenChar c = true)
    (not : isTokenChar other = false) : c ≠ other := by
  rintro rfl
  rw [token] at not
  cases not

theorem isTokenChar_not_white {c : Char} (token : isTokenChar c = true) :
    isWhitespace c = false := by
  have bounds := isTokenChar_bounds token
  simp only [isWhitespace, Bool.or_eq_false_iff, Bool.and_eq_false_iff, decide_eq_false_iff_not,
    beq_eq_false_iff_ne]
  omega

theorem Blanks.white (blanks : Blanks) : ∀ c ∈ blanks.text, isWhitespace c = true := by
  intro c hc
  rcases blanks.chars c hc with rfl | rfl
  · decide
  · decide

theorem Blanks.ne (blanks : Blanks) {other : Char} (space : other ≠ ' ') (tab : other ≠ '\t') :
    other ∉ blanks.text := by
  intro member
  rcases blanks.chars other member with same | same
  · exact space same
  · exact tab same

theorem Token.ne (token : Token) {other : Char} (not : isTokenChar other = false) :
    other ∉ token.text :=
  fun member => ne_of_isTokenChar (token.chars other member) not rfl

theorem Token.trim_text (token : Token) : trim token.text = token.text :=
  trim_eq_self fun c hc => isTokenChar_not_white (token.chars c hc)

/-! ## Rendered lines are visible -/

/-- What `HeaderValue::to_str` reads as text. -/
def AllVisible (text : Text) : Prop :=
  ∀ c ∈ text, c.toNat = 9 ∨ (32 ≤ c.toNat ∧ c.toNat < 127)

theorem AllVisible.append {left right : Text} (hleft : AllVisible left)
    (hright : AllVisible right) : AllVisible (left ++ right) := by
  intro c hc
  rcases List.mem_append.mp hc with hc | hc
  · exact hleft c hc
  · exact hright c hc

theorem AllVisible.cons {c : Char} {text : Text} (first : 32 ≤ c.toNat ∧ c.toNat < 127)
    (rest : AllVisible text) : AllVisible (c :: text) := by
  intro d hd
  rcases List.mem_cons.mp hd with rfl | hd
  · exact .inr first
  · exact rest d hd

theorem Blanks.visible (blanks : Blanks) : AllVisible blanks.text := by
  intro c hc
  rcases blanks.chars c hc with rfl | rfl
  · exact .inr (by decide)
  · exact .inl rfl

theorem Token.visible (token : Token) : AllVisible token.text := by
  intro c hc
  have := isTokenChar_bounds (token.chars c hc)
  omega

theorem QuotedItem.visible (items : List QuotedItem) :
    AllVisible (items.flatMap QuotedItem.text) := by
  intro c hc
  obtain ⟨item, -, hc⟩ := List.mem_flatMap.mp hc
  cases item with
  | plain d visible unquoted =>
      obtain rfl := List.mem_singleton.mp hc
      exact visible
  | escaped d visible =>
      rcases List.mem_cons.mp hc with rfl | hc
      · exact .inr (by decide)
      · obtain rfl := List.mem_singleton.mp hc
        exact visible

theorem Argument.visible (argument : Argument) : AllVisible argument.text := by
  cases argument with
  | token word => exact word.visible
  | quoted items =>
      have quote : AllVisible ['"'] := by
        intro c hc
        obtain rfl := List.mem_singleton.mp hc
        exact .inr (by decide)
      exact ((QuotedItem.visible items).cons (by decide)).append quote

namespace Element

theorem argumentText_visible (argument : Option (Blanks × Blanks × Argument)) :
    AllVisible (argumentText argument) := by
  rcases argument with - | ⟨left, right, argument⟩
  · simp [argumentText, AllVisible]
  · exact left.visible.append ((right.visible.append argument.visible).cons (by decide))

theorem text_visible (element : Element) : AllVisible element.text := by
  cases element with
  | empty blanks => exact blanks.visible
  | directive before name argument after =>
      exact ((before.visible.append name.visible).append (argumentText_visible argument)).append
        after.visible

end Element

theorem renderText_visible (line : List Element) : AllVisible (renderText line) := by
  induction line with
  | nil => simp [renderText, AllVisible]
  | cons element rest ih =>
      cases rest with
      | nil => exact element.text_visible
      | cons next rest => exact element.text_visible.append (ih.cons (by decide))

/-- A field line as a header value. -/
def renderLine (line : List Element) : VisibleText := ⟨renderText line, renderText_visible line⟩

/-! ## An element is one piece -/

/-- The scanner reads the text into the piece at hand. -/
def OnePiece (text : Text) : Prop :=
  ∀ part rest, splitOutsideQuotesFrom false false part (text ++ rest) =
    splitOutsideQuotesFrom false false (part ++ text) rest

theorem OnePiece.append {left right : Text} (hleft : OnePiece left) (hright : OnePiece right) :
    OnePiece (left ++ right) := by
  intro part rest
  rw [List.append_assoc, hleft, hright, List.append_assoc]

/-- A text with neither a quote nor a comma. -/
theorem onePiece_of_plain {text : Text} (noQuote : '"' ∉ text) (noComma : ',' ∉ text) :
    OnePiece text := by
  induction text with
  | nil => intro part rest; simp
  | cons c text ih =>
      intro part rest
      rw [List.mem_cons, not_or] at noQuote noComma
      rw [List.cons_append, splitOutsideQuotesFrom]
      simp only [Bool.false_eq_true, and_false, if_false, Ne.symm noQuote.1, Ne.symm noComma.1,
        false_and]
      rw [ih noQuote.2 noComma.2, List.append_assoc, List.singleton_append]

theorem Blanks.onePiece (blanks : Blanks) : OnePiece blanks.text :=
  onePiece_of_plain (blanks.ne (by decide) (by decide)) (blanks.ne (by decide) (by decide))

theorem Token.onePiece (token : Token) : OnePiece token.text :=
  onePiece_of_plain (token.ne (by decide)) (token.ne (by decide))

/-- The items of a quoted string leave the scanner inside it. -/
theorem splitOutsideQuotesFrom_items (items : List QuotedItem) (part rest : Text) :
    splitOutsideQuotesFrom true false part (items.flatMap QuotedItem.text ++ rest) =
      splitOutsideQuotesFrom true false (part ++ items.flatMap QuotedItem.text) rest := by
  induction items generalizing part with
  | nil => simp
  | cons item items ih =>
      rw [List.flatMap_cons, List.append_assoc, ← List.append_assoc part]
      rw [← ih (part ++ item.text)]
      cases item with
      | plain c visible unquoted =>
          simp [QuotedItem.text, splitOutsideQuotesFrom, unquoted.1, unquoted.2]
      | escaped c visible => simp [QuotedItem.text, splitOutsideQuotesFrom]

theorem Argument.onePiece (argument : Argument) : OnePiece argument.text := by
  cases argument with
  | token word => exact word.onePiece
  | quoted items =>
      intro part rest
      -- in through the first quote, along the items, and out through the second
      have enter : splitOutsideQuotesFrom false false part
          ('"' :: (items.flatMap QuotedItem.text ++ '"' :: rest)) =
          splitOutsideQuotesFrom true false (part ++ ['"'])
            (items.flatMap QuotedItem.text ++ '"' :: rest) := by
        simp [splitOutsideQuotesFrom]
      have leave (part : Text) : splitOutsideQuotesFrom true false part ('"' :: rest) =
          splitOutsideQuotesFrom false false (part ++ ['"']) rest := by
        simp [splitOutsideQuotesFrom]
      have written : (Argument.quoted items).text ++ rest =
          '"' :: (items.flatMap QuotedItem.text ++ '"' :: rest) := by
        simp [Argument.text]
      rw [written, enter, splitOutsideQuotesFrom_items, leave]
      simp [Argument.text]

namespace Element

theorem argumentText_onePiece (argument : Option (Blanks × Blanks × Argument)) :
    OnePiece (argumentText argument) := by
  rcases argument with - | ⟨left, right, argument⟩
  · exact onePiece_of_plain (by simp [argumentText]) (by simp [argumentText])
  · have equals : OnePiece ['='] := onePiece_of_plain (by decide) (by decide)
    exact left.onePiece.append (equals.append (right.onePiece.append argument.onePiece))

theorem text_onePiece (element : Element) : OnePiece element.text := by
  cases element with
  | empty blanks => exact blanks.onePiece
  | directive before name argument after =>
      exact ((before.onePiece.append name.onePiece).append (argumentText_onePiece argument)).append
        after.onePiece

end Element

/-- The scanner cuts a rendered line at the commas between its elements. -/
theorem splitOutsideQuotes_renderText (element : Element) (rest : List Element) :
    splitOutsideQuotes (renderText (element :: rest)) = (element :: rest).map Element.text := by
  induction rest generalizing element with
  | nil =>
      have whole := element.text_onePiece [] []
      rw [List.append_nil, List.nil_append] at whole
      show splitOutsideQuotesFrom false false [] element.text = [element.text]
      rw [whole]
      rfl
  | cons next rest ih =>
      have whole := element.text_onePiece [] (',' :: renderText (next :: rest))
      show splitOutsideQuotesFrom false false [] (element.text ++ ',' :: renderText (next :: rest)) = _
      rw [whole, List.map_cons, ← ih next]
      simp [splitOutsideQuotesFrom, splitOutsideQuotes]

/-! ## A piece is its directive -/

theorem Directives.parsePart_eq_none {part : Text} (noEquals : '=' ∉ part) (blank : trim part = []) :
    parsePart part = none := by
  simp [parsePart, splitOnce_eq_none noEquals, blank, toAsciiLowercase]

theorem Argument.trim_text (argument : Argument) : trim argument.text = argument.text := by
  cases argument with
  | token word => exact word.trim_text
  | quoted items => exact trim_between (by decide) (by decide) _

/-- The quotes around an argument are taken away, and nothing else. -/
theorem Argument.strip_text (argument : Argument) :
    (stripAround '"' argument.text).getD argument.text = argument.value := by
  cases argument with
  | token word =>
      show (stripAround '"' word.text).getD word.text = word.text
      rw [stripAround_eq_none (word.ne (by decide))]
      rfl
  | quoted items =>
      show (stripAround '"' ('"' :: items.flatMap QuotedItem.text ++ ['"'])).getD _ = _
      rw [stripAround_around]
      rfl

theorem Token.lower_ne_nil (token : Token) : toAsciiLowercase token.text ≠ [] := by
  rw [toAsciiLowercase, ne_eq, List.map_eq_nil_iff]
  exact token.nonempty

theorem Element.parsePart_text (element : Element) :
    Directives.parsePart element.text = element.parsed := by
  cases element with
  | empty blanks =>
      refine Directives.parsePart_eq_none (blanks.ne (by decide) (by decide)) ?_
      show trim blanks.text = []
      rw [← List.append_nil blanks.text, trim_append_left blanks.white]
      rfl
  | directive before name argument after =>
      have noEquals : '=' ∉ before.text ++ name.text := by
        rw [List.mem_append, not_or]
        exact ⟨before.ne (by decide) (by decide), name.ne (by decide)⟩
      rcases argument with - | ⟨left, right, argument⟩
      · -- without an equals sign the whole piece is the name
        have written : (directive before name none after).text =
            before.text ++ name.text ++ after.text := by
          simp [text, argumentText]
        have absent : '=' ∉ before.text ++ name.text ++ after.text := by
          rw [List.mem_append, not_or]
          exact ⟨noEquals, after.ne (by decide) (by decide)⟩
        have trimmed : trim (before.text ++ name.text ++ after.text) = name.text := by
          rw [trim_append_right after.white, trim_append_left before.white, name.trim_text]
        simp only [Directives.parsePart, written, splitOnce_eq_none absent, trimmed]
        exact if_pos name.lower_ne_nil
      · -- the first equals sign is the directive's own: no name or blank has one
        have written : (directive before name (some (left, right, argument)) after).text =
            before.text ++ name.text ++ left.text ++
              '=' :: (right.text ++ argument.text ++ after.text) := by
          simp [text, argumentText]
        have absent : '=' ∉ before.text ++ name.text ++ left.text := by
          rw [List.mem_append, not_or]
          exact ⟨noEquals, left.ne (by decide) (by decide)⟩
        have trimmed : trim (before.text ++ name.text ++ left.text) = name.text := by
          rw [trim_append_right left.white, trim_append_left before.white, name.trim_text]
        have argued : trim (right.text ++ argument.text ++ after.text) = argument.text := by
          rw [trim_append_right after.white, trim_append_left right.white, argument.trim_text]
        simp only [Directives.parsePart, written, splitOnce_append absent, trimmed, argued,
          argument.strip_text]
        exact if_pos name.lower_ne_nil

/-- One line reads as the directives of its elements. -/
theorem parse_renderLine (line : List Element) :
    (splitOutsideQuotes (renderText line)).filterMap Directives.parsePart =
      line.filterMap Element.parsed := by
  cases line with
  | nil => rfl
  | cons element rest =>
      rw [splitOutsideQuotes_renderText, List.filterMap_map]
      exact List.filterMap_congr fun element _ => element.parsePart_text

/-- Every well-formed field, in any letter case and layout and over any lines,
parses to its directives in order. -/
theorem parse_renderLines (lines : List (List Element)) :
    Directives.parse (lines.map fun line => (renderLine line).toValue) =
      ⟨lines.flatten.filterMap Element.parsed, false⟩ := by
  have values : (lines.map fun line => (renderLine line).toValue) =
      (lines.map renderLine).map VisibleText.toValue := by
    rw [List.map_map]
    rfl
  have one (line : List Element) :
      (splitOutsideQuotes (renderLine line).text).filterMap Directives.parsePart =
        line.filterMap Element.parsed := parse_renderLine line
  rw [values, Directives.parse_toValue, List.flatMap_map]
  simp only [one, List.flatMap_def, List.filterMap_flatten]

/-- A field over two lines, with an empty element, blanks around an equals
sign, and a quoted comma. -/
example : Directives.parse [⟨ascii "Private = \"a, \\\"b\" ,\t,", by decide⟩,
    ⟨ascii "MAX-AGE=5", by decide⟩] =
    ⟨[("private".toList, some "a, \\\"b".toList), ("max-age".toList, some "5".toList)], false⟩ := by
  rfl

end Shadowstep
