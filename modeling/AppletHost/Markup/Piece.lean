import AppletHost.Markup.Tag
import AppletHost.Text.Search
import AppletHost.Text.Taken

/-!
# The pieces of a markup text

A markup text is a sequence of characters, start tags, close tags and complete elements. Comments,
declarations and processing instructions leave no piece behind. Nothing is ever an error: a `<` that
starts no tag is a character, and so is everything from a tag on that never ends.
-/

namespace AppletHost.Markup

open Text (Taken)

/-- A piece of a markup text. -/
inductive Piece where
  /-- A character of text. -/
  | char (c : Char)
  /-- A start tag that a close tag may follow. -/
  | start (name : String) (attributes : List Attribute)
  /-- An element that is complete as it stands. -/
  | whole (node : Node)
  /-- A close tag. -/
  | close (name : String)
deriving Repr, Inhabited

/-- Every character as text. -/
def asText (cs : List Char) : List Piece := cs.map Piece.char

/-- A character as text and all that follows it left over. -/
def oneChar (c : Char) (cs : List Char) : Taken (List Piece) (c :: cs) :=
  ⟨[.char c], cs, Nat.lt_succ_self _⟩

theorem length_after_le {word cs before after : List Char}
    (h : Text.breakOn? word cs = some (before, after)) : after.length ≤ cs.length := by
  have := congrArg List.length (Text.breakOn?_append h)
  simp only [List.length_append] at this
  omega

/-- No pieces up to the first `word`, or to the end if there is none. -/
def skipPast (word : List Char) (c : Char) (cs : List Char) : Taken (List Piece) (c :: cs) :=
  match h : Text.breakOn? word cs with
  | none => ⟨[], [], Nat.zero_lt_succ _⟩
  | some (_, rest) => ⟨[], rest, Nat.lt_succ_of_le (length_after_le h)⟩

/-- The whole remaining text as text. -/
def allText (c : Char) (cs : List Char) : Taken (List Piece) (c :: cs) :=
  ⟨asText (c :: cs), [], Nat.zero_lt_succ _⟩

theorem length_of_tagEnd? {quote : Option Char} {cs inside rest : List Char}
    (h : tagEnd? quote cs = some (inside, rest)) : inside.length + 1 + rest.length = cs.length := by
  fun_induction tagEnd? quote cs generalizing inside rest with
  | case1 => simp at h
  | case2 c cs q ih =>
    obtain ⟨⟨i, r⟩, hb, he⟩ := Option.map_eq_some_iff.1 h
    obtain ⟨rfl, rfl⟩ := Prod.mk.inj he
    have := ih hb
    simp only [List.length_cons]; omega
  | case3 cs =>
    obtain ⟨rfl, rfl⟩ := Prod.mk.inj (Option.some.inj h)
    simp
    omega
  | case4 c cs _ ih =>
    obtain ⟨⟨i, r⟩, hb, he⟩ := Option.map_eq_some_iff.1 h
    obtain ⟨rfl, rfl⟩ := Prod.mk.inj he
    have := ih hb
    simp only [List.length_cons]; omega

/-- The content of a raw text element and what follows its close tag. -/
def rawContent (name : List Char) (cs : List Char) : List Char × List Char :=
  match Text.breakAt? (Text.startsWithFolded? ('<' :: '/' :: name)) cs with
  | none => (cs, [])
  | some (content, rest) => (content, ((Text.breakOn? ['>'] rest).map Prod.snd).getD [])

theorem length_rawContent_le (name cs : List Char) : (rawContent name cs).2.length ≤ cs.length := by
  rw [rawContent]
  split
  · simp
  · next content rest h =>
    obtain ⟨here, hh, rfl⟩ := Text.breakAt?_append h
    have h1 := Text.length_of_startsWithFolded? hh
    cases hb : Text.breakOn? ['>'] rest with
    | none => simp
    | some p =>
      obtain ⟨b, r⟩ := p
      have h2 := congrArg List.length (Text.breakOn?_append hb)
      simp only [List.length_append, List.length_cons] at h1 h2 ⊢
      simp only [Option.map_some, Option.getD_some]
      omega

/-- The text of an element with nothing but text in it. -/
def textNodes (cs : List Char) : List Node := if cs = [] then [] else [.text (String.ofList cs)]

/-- The piece that a start tag is, from its inside and what follows the tag. -/
def startPiece (inside after : List Char) : Piece × List Char :=
  let tag := splitStartTag inside
  let name := Text.lowercase tag.name
  let attrs := attributes tag.attributes
  let s := String.ofList name
  if tag.selfClosing ∨ s ∈ voidNames then (.whole (.element s attrs []), after)
  else if s ∈ rawTextNames then
    let (content, rest) := rawContent name after
    (.whole (.element s attrs (textNodes content)), rest)
  else (.start s attrs, after)

theorem length_startPiece_le (inside after : List Char) :
    (startPiece inside after).2.length ≤ after.length := by
  unfold startPiece
  simp only
  split
  · exact Nat.le_refl _
  · split
    · exact length_rawContent_le _ _
    · exact Nat.le_refl _

theorem length_startPiece_lt {cs inside after : List Char}
    (h : tagEnd? none cs = some (inside, after)) : (startPiece inside after).2.length < cs.length := by
  have h1 := length_of_tagEnd? h
  have h2 := length_startPiece_le inside after
  omega

/-- The pieces at a `<`, from what follows it. -/
def pieceAt (cs : List Char) : Taken (List Piece) ('<' :: cs) :=
  match cs with
  | '!' :: '-' :: '-' :: rest => (skipPast "-->".toList '!' ('-' :: '-' :: rest)).within (Nat.le_succ _)
  | '!' :: rest => skipPast ['>'] '<' ('!' :: rest)
  | '?' :: rest => skipPast ['>'] '<' ('?' :: rest)
  | '/' :: rest =>
    match h : Text.breakOn? ['>'] rest with
    | none => allText '<' ('/' :: rest)
    | some (name, after) =>
      ⟨[.close (String.ofList (Text.lowercase (Text.trim name)))], after,
        Nat.lt_succ_of_le (Nat.le_succ_of_le (length_after_le h))⟩
  | c :: rest =>
    if c.isAlpha then
      match h : tagEnd? none (c :: rest) with
      | none => allText '<' (c :: rest)
      | some (inside, after) =>
        ⟨[(startPiece inside after).1], (startPiece inside after).2,
          Nat.lt_succ_of_lt (length_startPiece_lt h)⟩
    else oneChar '<' (c :: rest)
  | [] => oneChar '<' []

/-- The pieces of a text, in order. -/
def pieces : List Char → List Piece
  | [] => []
  | '<' :: cs =>
    let taken := pieceAt cs
    taken.value ++ pieces taken.rest
  | c :: cs => .char c :: pieces cs
termination_by cs => cs.length
decreasing_by
  · exact taken.shorter
  · simp

end AppletHost.Markup
