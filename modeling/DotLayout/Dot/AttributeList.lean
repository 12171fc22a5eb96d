import DotLayout.Graph.Element
import DotLayout.Text.Excerpt
import DotLayout.Text.Quoted
import DotLayout.Text.Word

/-! # Attribute lists

    The content of a list is read as pairs `key=value`, with blanks allowed around the sign.  A
    value is a quoted string, a markup value `<…>` with at most one level of angle brackets
    inside, or a bare run up to the next separator.  Pairs are separated by blanks, commas and
    semicolons; whatever else stands between them is junk.

    `readEntries` accounts for the whole content, pair by pair and junk by junk.  The pairs are
    then gathered into the attributes of a node or of an edge, later ones winning. -/

namespace DotLayout.Dot

open Text

/-- A key and its value. -/
structure Pair where
  key : String
  value : String
  deriving Repr, DecidableEq

/-- What an attribute list holds. -/
inductive Entry where
  | pair (p : Pair) (place : Excerpt)
  | junk (place : Excerpt)
  deriving Repr, DecidableEq

/-- Whether a character may stand in a key. -/
def isKeyChar (c : Char) : Bool := isWordChar c || c == '.'

/-- Whether a character may stand between two pairs. -/
def isSeparator (c : Char) : Bool := isBlank c || c == ',' || c == ';'

/-- Whether a character may stand in a value without quotes. -/
def isBareChar (c : Char) : Bool := !(isSeparator c || c == ']' || c == '"')

/-- Splits the text after an opening angle bracket into a markup value and what follows its
    closing bracket.  Groups in brackets may stand inside, but no group in a group. -/
def readMarkup (inGroup : Bool) : List Char → Option (List Char × List Char)
  | [] => none
  | c :: rest =>
    if c = '>' then
      if inGroup then (readMarkup false rest).map (inFront [c]) else some ([], rest)
    else if c = '<' then
      if inGroup then none else (readMarkup true rest).map (inFront [c])
    else
      (readMarkup inGroup rest).map (inFront [c])

/-- A value as it is written and as it is meant, and the text that follows it. -/
structure Reading where
  written : List Char
  value : List Char
  after : List Char

def readBare (text : List Char) : Option Reading :=
  let value := text.takeWhile isBareChar
  if value.isEmpty then none else some ⟨value, value, text.dropWhile isBareChar⟩

def readValue : List Char → Option Reading
  | '"' :: rest =>
    (readQuotedLine rest).map fun (content, after) =>
      ⟨'"' :: content ++ ['"'], unescape content, after⟩
  | '<' :: rest =>
    ((readMarkup false rest).map fun (content, after) =>
      ⟨'<' :: content ++ ['>'], content, after⟩).or (readBare ('<' :: rest))
  | text => readBare text

/-- Reads the sign and the value after a key. -/
def readAssigned (text : List Char) : Option Reading :=
  match text.dropWhile isBlank with
  | '=' :: rest =>
    (readValue (rest.dropWhile isBlank)).map fun reading =>
      let sign := text.takeWhile isBlank ++ '=' :: rest.takeWhile isBlank
      { reading with written := sign ++ reading.written }
  | _ => none

/-- A markup value that closes is its content, the closing bracket and what follows. -/
theorem eq_of_readMarkup {inGroup : Bool} {text content after : List Char}
    (h : readMarkup inGroup text = some (content, after)) : text = content ++ '>' :: after := by
  induction text generalizing inGroup content with
  | nil => simp [readMarkup] at h
  | cons c rest ih =>
    have step : ∀ {g : Bool},
        (readMarkup g rest).map (inFront [c]) = some (content, after) →
          c :: rest = content ++ '>' :: after := by
      intro g hg
      obtain ⟨⟨inner, tail⟩, hr, he⟩ := Option.map_eq_some_iff.1 hg
      obtain ⟨rfl, rfl⟩ := Prod.mk.inj he
      simp [ih hr]
    unfold readMarkup at h
    split at h
    · split at h
      · exact step h
      · simp_all
    · split at h
      · split at h
        · simp at h
        · exact step h
      · exact step h

theorem written_readBare {text : List Char} {reading : Reading}
    (h : readBare text = some reading) : reading.written ++ reading.after = text := by
  unfold readBare at h
  simp only at h
  split at h
  · simp at h
  · obtain rfl := Option.some.inj h
    exact List.takeWhile_append_dropWhile

theorem written_readValue {text : List Char} {reading : Reading}
    (h : readValue text = some reading) : reading.written ++ reading.after = text := by
  unfold readValue at h
  split at h
  · obtain ⟨⟨content, after⟩, hr, rfl⟩ := Option.map_eq_some_iff.1 h
    simp [eq_of_readQuoted (Option.filter_eq_some_iff.1 hr).1]
  · rcases Option.or_eq_some_iff.1 h with hm | ⟨-, hb⟩
    · obtain ⟨⟨content, after⟩, hr, rfl⟩ := Option.map_eq_some_iff.1 hm
      simp [eq_of_readMarkup hr]
    · exact written_readBare hb
  · exact written_readBare h

/-- What is written after a key and what follows it are the whole text. -/
theorem written_readAssigned {text : List Char} {reading : Reading}
    (h : readAssigned text = some reading) : reading.written ++ reading.after = text := by
  unfold readAssigned at h
  split at h
  · rename_i rest hr
    obtain ⟨reading, hv, rfl⟩ := Option.map_eq_some_iff.1 h
    have whole := List.takeWhile_append_dropWhile (p := isBlank) (l := text)
    simp only [List.append_assoc, List.cons_append, written_readValue hv,
      List.takeWhile_append_dropWhile]
    rw [← hr, whole]
  · simp at h

/-- What follows an assigned value is no longer than the text after the key. -/
theorem length_readAssigned {text : List Char} {reading : Reading}
    (h : readAssigned text = some reading) : reading.after.length ≤ text.length := by
  have lengths := congrArg List.length (written_readAssigned h)
  simp only [List.length_append] at lengths
  omega

/-- The junk in a gap between pairs, if anything but separators stands there. -/
def junkIn (gap : Excerpt) : List Entry :=
  let trimmed := gap.trimWhere isSeparator
  if trimmed.chars.isEmpty then [] else [.junk trimmed]

/-- Reads the entries of a text.  The gap right before it starts at a position and is given from
    its last character back to its first. -/
def entriesAfter (start : Nat) (gap : List Char) (text : List Char) : List Entry :=
  match text with
  | [] => junkIn ⟨start, gap.reverse⟩
  | c :: rest =>
    if isKeyChar c then
      let key := c :: rest.takeWhile isKeyChar
      let afterKey := rest.dropWhile isKeyChar
      match _h : readAssigned afterKey with
      | some reading =>
        let before : Excerpt := ⟨start, gap.reverse⟩
        let place : Excerpt := ⟨before.stop, key ++ reading.written⟩
        junkIn before ++ .pair ⟨String.ofList key, String.ofList reading.value⟩ place
          :: entriesAfter place.stop [] reading.after
      | none => entriesAfter start (key.reverse ++ gap) afterKey
    else entriesAfter start (c :: gap) rest
  termination_by text.length
  decreasing_by
    · have value := length_readAssigned _h
      have key : afterKey.length ≤ rest.length := (List.dropWhile_sublist isKeyChar).length_le
      simp only [List.length_cons]
      omega
    · have key := (List.dropWhile_sublist isKeyChar (l := rest)).length_le
      simp only [List.length_cons]
      omega
    · simp

/-- The entries of an attribute list, in order. -/
def readEntries (content : Excerpt) : List Entry := entriesAfter content.start [] content.chars

def Entry.pair? : Entry → Option Pair
  | .pair p _ => some p
  | .junk _ => none

def Entry.junk? : Entry → Option Excerpt
  | .pair .. => none
  | .junk place => some place

/-- What the attributes of a node say. -/
structure NodeSettings where
  label : Option String := none
  style : NodeStyle := {}

def NodeSettings.add (s : NodeSettings) (p : Pair) : NodeSettings :=
  match p.key with
  | "label" => { s with label := some p.value }
  | "color" => { s with style := { s.style with stroke := some p.value } }
  | "fillcolor" => { s with style := { s.style with background := some p.value } }
  | "style" => { s with style := { s.style with style := some p.value } }
  | "shape" => { s with style := { s.style with shape := some p.value } }
  | key => { s with style := { s.style with extra := s.style.extra.insert key p.value } }

/-- The attributes of a node; later ones win. -/
def NodeSettings.ofPairs (pairs : List Pair) : NodeSettings := pairs.foldl .add {}

/-- What the attributes of an edge say. -/
structure EdgeSettings where
  attributes : EdgeAttributes := {}
  /-- The kind that the edge itself asks for. -/
  kind : Option EdgeKind := none

/-- Adds one attribute of an edge; a `splines` value that names no kind is kept as it is. -/
def EdgeSettings.add (s : EdgeSettings) (p : Pair) : EdgeSettings :=
  let keep : EdgeSettings :=
    { s with attributes := { s.attributes with extra := s.attributes.extra.insert p.key p.value } }
  match p.key with
  | "label" => { s with attributes := { s.attributes with label := some p.value } }
  | "color" => { s with attributes := { s.attributes with stroke := some p.value } }
  | "style" => { s with attributes := { s.attributes with style := some p.value } }
  | "splines" =>
    match EdgeKind.ofName? p.value with
    | some kind => { s with kind := some kind }
    | none => keep
  | _ => keep

/-- The attributes of an edge; later ones win. -/
def EdgeSettings.ofPairs (pairs : List Pair) : EdgeSettings := pairs.foldl .add {}

end DotLayout.Dot
