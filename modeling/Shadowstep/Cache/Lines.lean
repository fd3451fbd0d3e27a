import Shadowstep.Cache.Policy

/-!
# Cache-Control over several lines

A field that is split into lines reads like its lines joined by a comma and a
space, as long as no line but the last leaves a quoted string open: the
scanner carries its quote over a comma but starts anew on every line.

* `parse_join` — the lines and their join, as whole parses;
* `cacheControl_lines` — what the caching rules make of the two;
* `cacheControl_open_quote` — an open quote that hides the next line.
-/

namespace Shadowstep

open Rust

/-! ## The scanner -/

/-- Whether a quoted string, and in it an escape, is open after a text. -/
def quotesAfter (quoted escaped : Bool) : Text → Bool × Bool
  | [] => (quoted, escaped)
  | c :: rest =>
    if escaped then quotesAfter quoted false rest
    else if c = '\\' ∧ quoted then quotesAfter quoted true rest
    else if c = '"' then quotesAfter (!quoted) false rest
    else quotesAfter quoted false rest

/-- The text leaves no quoted string open. -/
def QuotesClosed (text : Text) : Prop := quotesAfter false false text = (false, false)

instance (text : Text) : Decidable (QuotesClosed text) :=
  inferInstanceAs (Decidable (quotesAfter false false text = (false, false)))

/-- A comma where no quoted string is open ends a piece, and the scanner goes
on from there as from the start. -/
theorem splitOutsideQuotesFrom_comma {quoted escaped : Bool} {first : Text}
    (closed : quotesAfter quoted escaped first = (false, false)) (part second : Text) :
    splitOutsideQuotesFrom quoted escaped part (first ++ ',' :: second) =
      splitOutsideQuotesFrom quoted escaped part first ++ splitOutsideQuotes second := by
  induction first generalizing quoted escaped part with
  | nil =>
      obtain ⟨rfl, rfl⟩ := Prod.mk.inj closed
      simp [splitOutsideQuotesFrom, splitOutsideQuotes]
  | cons c rest ih =>
      simp only [List.cons_append, splitOutsideQuotesFrom, quotesAfter] at closed ⊢
      -- along the branches of one character; only the comma ends a piece
      split_ifs at closed ⊢ with escape backslash quote comma
      · exact ih closed _
      · exact ih closed _
      · exact ih closed _
      · rw [ih closed, List.cons_append]
      · exact ih closed _

/-- What stands before the first piece stays in front of it. -/
theorem splitOutsideQuotesFrom_part (quoted escaped : Bool) (before part text : Text) :
    splitOutsideQuotesFrom quoted escaped (before ++ part) text =
      (splitOutsideQuotesFrom quoted escaped part text).modifyHead (before ++ ·) := by
  induction text generalizing quoted escaped part with
  | nil => rfl
  | cons c rest ih =>
      simp only [splitOutsideQuotesFrom, List.append_assoc, ih]
      split_ifs <;> rfl

namespace Directives

/-! ## One piece -/

/-- A blank in front of a piece changes nothing. -/
theorem parsePart_space (part : Text) : parsePart (' ' :: part) = parsePart part := by
  have white : isWhitespace ' ' = true := by decide
  by_cases equals : '=' ∈ part
  · obtain ⟨name, argument, rfl, absent⟩ := List.eq_append_cons_of_mem equals
    have absent' : '=' ∉ ' ' :: name := by simp [absent]
    simp only [parsePart, splitOnce_append absent, ← List.cons_append, splitOnce_append absent',
      trim_cons white]
  · have absent' : '=' ∉ ' ' :: part := by simp [equals]
    simp only [parsePart, splitOnce_eq_none equals, splitOnce_eq_none absent', trim_cons white]

theorem parseValue_toValue (value : VisibleText) :
    parseValue value.toValue = (splitOutsideQuotes value.text).filterMap parsePart := by
  rw [parseValue, VisibleText.toStr_toValue]

/-- No visible value is malformed. -/
theorem parse_toValue (values : List VisibleText) :
    parse (values.map VisibleText.toValue) =
      ⟨values.flatMap fun value => (splitOutsideQuotes value.text).filterMap parsePart, false⟩ := by
  have wellFormed :
      (values.map VisibleText.toValue).any (fun value => value.toStr.isNone) = false := by
    simp [VisibleText.toStr_toValue]
  simp only [parse, wellFormed, List.flatMap_map, parseValue_toValue]

end Directives

/-! ## Lines joined -/

/-- The separator that joins field lines (RFC 9110 section 5.3). -/
def lineSeparator : VisibleText := ⟨", ".toList, by decide⟩

/-- Field lines as one line. -/
def VisibleText.join : List VisibleText → VisibleText
  | [] => ⟨[], by simp⟩
  | [value] => value
  | value :: next :: rest => (value.append lineSeparator).append (join (next :: rest))

theorem VisibleText.join_text (value next : VisibleText) (rest : List VisibleText) :
    (join (value :: next :: rest)).text =
      value.text ++ ',' :: ' ' :: (join (next :: rest)).text := by
  show value.text ++ ", ".toList ++ (join (next :: rest)).text = _
  simp

/-- The joined lines parse to what the lines parse to. -/
theorem Directives.parse_join {values : List VisibleText}
    (closed : ∀ value ∈ values.dropLast, QuotesClosed value.text) :
    parse [(VisibleText.join values).toValue] = parse (values.map VisibleText.toValue) := by
  have one (value : VisibleText) : parse [value.toValue] =
      ⟨(splitOutsideQuotes value.text).filterMap parsePart, false⟩ := by
    simpa using parse_toValue [value]
  rw [one, parse_toValue]
  congr 1
  induction values with
  | nil => rfl
  | cons value rest ih =>
      cases rest with
      | nil => simp [VisibleText.join]
      | cons next rest =>
          have now : QuotesClosed value.text := closed value (by simp)
          have later := ih fun value' member => closed value' (by simp [member])
          -- the space after the comma falls to the next line's first piece
          have space : (splitOutsideQuotes (' ' :: (VisibleText.join (next :: rest)).text)).filterMap
              parsePart =
              (splitOutsideQuotes (VisibleText.join (next :: rest)).text).filterMap parsePart := by
            have shifted := splitOutsideQuotesFrom_part false false [' '] []
              (VisibleText.join (next :: rest)).text
            have scanned : splitOutsideQuotes (' ' :: (VisibleText.join (next :: rest)).text) =
                (splitOutsideQuotes (VisibleText.join (next :: rest)).text).modifyHead
                  ([' '] ++ ·) := shifted
            rw [scanned]
            cases splitOutsideQuotes (VisibleText.join (next :: rest)).text with
            | nil => rfl
            | cons first pieces =>
                show List.filterMap parsePart ((' ' :: first) :: pieces) = _
                rw [List.filterMap_cons, parsePart_space, List.filterMap_cons]
          rw [VisibleText.join_text, splitOutsideQuotes, splitOutsideQuotesFrom_comma now,
            List.filterMap_append, space, later, List.flatMap_cons]
          rfl

/-- Two header maps that differ in the form of their `Cache-Control` only. -/
structure SameDirectives (left right : HeaderMap) : Prop where
  directives : Directives.parse (left.getAll header.cacheControl) =
    Directives.parse (right.getAll header.cacheControl)
  others : ∀ name ≠ header.cacheControl, left.getAll name = right.getAll name

namespace SameDirectives

variable {left right : HeaderMap}

theorem containsKey (same : SameDirectives left right) (name : HeaderName)
    (other : name ≠ header.cacheControl) : left.containsKey name = right.containsKey name := by
  rw [HeaderMap.containsKey_eq_getAll, HeaderMap.containsKey_eq_getAll, same.others name other]

theorem get (same : SameDirectives left right) (name : HeaderName)
    (other : name ≠ header.cacheControl) : left.get name = right.get name := by
  rw [HeaderMap.get, HeaderMap.get, same.others name other]

/-- A list of names without `Cache-Control` meets both maps alike. -/
theorem anyKey (same : SameDirectives left right) (names : List HeaderName)
    (others : ∀ name ∈ names, name ≠ header.cacheControl) :
    names.any left.containsKey = names.any right.containsKey := by
  rw [Bool.eq_iff_iff, List.any_eq_true, List.any_eq_true]
  exact exists_congr fun name => and_congr_right fun member => by
    rw [same.containsKey name (others name member)]

/-- The request policy reads the directives and no other form of them. -/
theorem requestPolicy (same : SameDirectives left right) (method : Method) :
    RequestPolicy.new method left = RequestPolicy.new method right := by
  simp only [RequestPolicy.new, same.directives, same.anyKey methodOverrideHeaders (by decide),
    same.anyKey preconditionHeaders (by decide), same.containsKey header.authorization (by decide),
    same.containsKey header.cookie (by decide)]

/-- So does `storable`. -/
theorem storable [HttpDate] (same : SameDirectives left right) (policy : RequestPolicy)
    (request : HeaderMap) (status : StatusCode) (now : Clock) :
    Shadowstep.storable policy request status left now =
      Shadowstep.storable policy request status right now := by
  have directives : storableResponseDirectives status left =
      storableResponseDirectives status right := by
    simp only [storableResponseDirectives, same.directives,
      same.containsKey header.setCookie (by decide)]
  have vary : varyNames left = varyNames right :=
    varyNames_congr (same.others header.vary (by decide))
  have age : originAge left = originAge right := by
    simp only [originAge, same.get header.age (by decide)]
  have lifetime (d : Directives) : freshnessLifetime d left now = freshnessLifetime d right now := by
    simp only [freshnessLifetime, same.get header.expires (by decide),
      same.get header.date (by decide)]
  simp only [Shadowstep.storable, directives, vary, age, lifetime]

end SameDirectives

/-- Joining the `Cache-Control` lines of a map keeps its directives. -/
theorem sameDirectives_join {values : List VisibleText} {headers : HeaderMap}
    (closed : ∀ value ∈ values.dropLast, QuotesClosed value.text)
    (lines : headers.getAll header.cacheControl = values.map VisibleText.toValue) :
    SameDirectives (headers.insert header.cacheControl (VisibleText.join values).toValue)
      headers where
  directives := by
    rw [HeaderMap.getAll_insert, if_pos rfl, lines, Directives.parse_join closed]
  others name other := by rw [HeaderMap.getAll_insert, if_neg other]

/-- `Cache-Control` reads the same in lines and joined, for lines of which
none but the last leaves a quoted string open: every directive, and with
them the request policy and what may be stored. -/
theorem cacheControl_lines (values : List VisibleText)
    (closed : ∀ value ∈ values.dropLast, QuotesClosed value.text) :
    let lines := values.map VisibleText.toValue
    let joined := (VisibleText.join values).toValue
    (∀ name, (Directives.parse [joined]).has name = (Directives.parse lines).has name ∧
      (Directives.parse [joined]).seconds name = (Directives.parse lines).seconds name) ∧
    (∀ (method : Method) (request : HeaderMap), request.getAll header.cacheControl = lines →
      RequestPolicy.new method (request.insert header.cacheControl joined) =
        RequestPolicy.new method request) ∧
    ∀ (_ : HttpDate) (policy : RequestPolicy) (request : HeaderMap) (status : StatusCode)
      (response : HeaderMap) (now : Clock), response.getAll header.cacheControl = lines →
      storable policy request status (response.insert header.cacheControl joined) now =
        storable policy request status response now := by
  refine ⟨fun name => ?_, fun method request there => ?_,
    fun _ policy request status response now there => ?_⟩
  · rw [Directives.parse_join closed]
    exact ⟨rfl, rfl⟩
  · exact (sameDirectives_join closed there).requestPolicy method
  · exact (sameDirectives_join closed there).storable policy request status now

/-- A quoted comma in the first of two lines splits neither form. -/
theorem cacheControl_lines_example : ∃ values : List VisibleText,
    (∀ value ∈ values.dropLast, QuotesClosed value.text) ∧
      (VisibleText.join values).text = "no-cache=\"a, b\", max-age=5".toList ∧
      (Directives.parse [(VisibleText.join values).toValue]).seconds "max-age" =
        (Directives.parse (values.map VisibleText.toValue)).seconds "max-age" := by
  refine ⟨[⟨"no-cache=\"a, b\"".toList, by decide⟩, ⟨"max-age=5".toList, by decide⟩],
    by decide, by decide, ?_⟩
  exact ((cacheControl_lines _ (by decide)).1 "max-age").2

/-- An open quote in one line takes the next line into it when the two are
joined: read line by line the field says `no-store`, and joined it does not,
so a request that forbids storing becomes one that allows it. -/
theorem cacheControl_open_quote : ∃ values : List VisibleText,
    values.map VisibleText.text = ["a=\"b".toList, "no-store".toList] ∧
      (Directives.parse (values.map VisibleText.toValue)).has "no-store" = true ∧
      (Directives.parse [(VisibleText.join values).toValue]).has "no-store" = false ∧
      (RequestPolicy.new .get (values.map fun value =>
        (header.cacheControl, value.toValue))).mayStore = false ∧
      (RequestPolicy.new .get
        [(header.cacheControl, (VisibleText.join values).toValue)]).mayStore = true := by
  refine ⟨[⟨"a=\"b".toList, by decide⟩, ⟨"no-store".toList, by decide⟩], ?_⟩
  decide +kernel

end Shadowstep
