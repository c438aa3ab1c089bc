/-
JSON documents as far as they can be read.

A document is a tree of values in which the place where the text stops being JSON, if it does, is
kept: as a value that breaks off, or as the ending of an array or object where a comma or the
closing mark is missing. Nothing is decided here about which fault to report. Whoever reads the
document walks through it in the order of the text and reports the first thing that is wrong for
him, which may be a value of the wrong kind that comes before the place where the text breaks off.

Tokens are taken one at a time (`Reader.step`), with the containers that are still open kept in a
list, the innermost first. Reading stops as soon as one value is complete, and then gives back the
tokens that follow.
-/
import WireRecord.Json.Lexer

set_option autoImplicit false

namespace WireRecord.Json

/-- How an array or object ends. -/
inductive Ending where
  | closed
  /-- It was whole before it was read, so its length is known from the beginning. -/
  | counted
  /-- It breaks off where a comma or the closing mark is due. -/
  | cut (place : Break)
deriving DecidableEq

/-- A document, as far as it can be read. -/
inductive Document where
  /-- No value at all: the text breaks off. -/
  | broken (place : Break)
  | null
  | bool (value : Bool)
  /-- A number, with its value unless that is too great. -/
  | number (value : Option Number)
  /-- A string, with its value unless it has half a surrogate pair. -/
  | string (value : Option String)
  | array (items : List Document) (ending : Ending)
  /-- An object: its keys, which are strings, and their values, in the order of the text. -/
  | object (entries : List (Option String × Document)) (ending : Ending)

/-- The key and the value of an entry of an object. -/
abbrev Entry := Option String × Document

/-! ## Skipping -/

/-- The fault at the end of a container that is skipped. -/
def Ending.obstacle? : Ending → Option Fault
  | closed | counted => none
  | cut place => some place.skip

mutual

/-- The first fault that is met when a document is skipped unread. -/
def Document.obstacle? : Document → Option Fault
  | .broken place => some place.skip
  | .array items ending => (obstacleInItems? items).or ending.obstacle?
  | .object entries ending => (obstacleInEntries? entries).or ending.obstacle?
  | .null | .bool _ | .number _ | .string _ => none

/-- The first fault that is met when items are skipped. -/
def obstacleInItems? : List Document → Option Fault
  | [] => none
  | d :: rest => d.obstacle?.or (obstacleInItems? rest)

/-- The first fault that is met when entries are skipped. -/
def obstacleInEntries? : List (Option String × Document) → Option Fault
  | [] => none
  | (_, d) :: rest => d.obstacle?.or (obstacleInEntries? rest)

end

/-! ## Reading tokens -/

/-- A container that is still open, with what is complete in it, the last first. -/
inductive Frame where
  /-- An array of which an item is being read. -/
  | array (items : List Document)
  /-- An object of which the value for a key is being read. -/
  | object (entries : List Entry) (key : Option String)

/-- What a reader of tokens expects next. -/
inductive Reader where
  | value (outer : List Frame)
  /-- The first item of an array, or its end. -/
  | firstItem (outer : List Frame)
  /-- The first key of an object, or its end. -/
  | firstKey (outer : List Frame)
  | nextKey (entries : List Entry) (outer : List Frame)
  | colon (entries : List Entry) (key : Option String) (outer : List Frame)
  /-- A comma, or the end of an array. -/
  | afterItem (items : List Document) (outer : List Frame)
  /-- A comma, or the end of an object. -/
  | afterEntry (entries : List Entry) (outer : List Frame)
  /-- Nothing: the document is complete, or breaks off. -/
  | done (d : Document)

namespace Reader

/-- A complete value inside the open containers. -/
def complete (d : Document) : List Frame → Reader
  | [] => .done d
  | .array items :: outer => .afterItem (d :: items) outer
  | .object entries key :: outer => .afterEntry ((key, d) :: entries) outer

/-- The document that breaks off inside the open containers, after the given last value. -/
def unwind (place : Break) (d : Document) : List Frame → Document
  | [] => d
  | .array items :: outer => unwind place (.array (d :: items).reverse (.cut place)) outer
  | .object entries key :: outer =>
    unwind place (.object ((key, d) :: entries).reverse (.cut place)) outer

/-- The document that breaks off where a value is due. -/
def breakValue (place : Break) (outer : List Frame) : Document :=
  unwind place (.broken place) outer

/-- The document that breaks off behind the items of an array. -/
def breakArray (place : Break) (items : List Document) (outer : List Frame) : Document :=
  unwind place (.array items.reverse (.cut place)) outer

/-- The document that breaks off behind the entries of an object, or at the key of the next. -/
def breakObject (place : Break) (entries : List Entry) (outer : List Frame) : Document :=
  unwind place (.object entries.reverse (.cut place)) outer

/-- The document if the text ends where the reader stands. -/
def finish : Reader → Document
  | .value outer => breakValue (.both .ended) outer
  | .firstItem outer => breakArray (.both .ended) [] outer
  | .firstKey outer => breakObject (.both .ended) [] outer
  | .nextKey entries outer => breakObject (.both .ended) entries outer
  | .colon entries key outer => breakValue (.both .ended) (.object entries key :: outer)
  | .afterItem items outer => breakArray (.both .ended) items outer
  | .afterEntry entries outer => breakObject (.both .ended) entries outer
  | .done d => d

/-- Takes a token where a value is due. -/
def stepValue (outer : List Frame) : Token → Reader
  | .null => complete .null outer
  | .bool b => complete (.bool b) outer
  | .number n => complete (.number n) outer
  | .string s => complete (.string s) outer
  | .mark .arrayOpen => .firstItem outer
  | .mark .objectOpen => .firstKey outer
  | .mark _ => .done (breakValue (.both .malformed) outer)
  | .brokenString place | .broken place => .done (breakValue place outer)

/-- Takes a token where a key is due. -/
def stepKey (entries : List Entry) (outer : List Frame) : Token → Reader
  | .string s => .colon entries s outer
  | .brokenString place => .done (breakObject place entries outer)
  | _ => .done (breakObject (.both .malformed) entries outer)

def step : Reader → Token → Reader
  | .value outer, t => stepValue outer t
  | .firstItem outer, .mark .arrayClose => complete (.array [] .closed) outer
  | .firstItem outer, t => stepValue (.array [] :: outer) t
  | .firstKey outer, .mark .objectClose => complete (.object [] .closed) outer
  | .firstKey outer, t => stepKey [] outer t
  | .nextKey entries outer, t => stepKey entries outer t
  | .colon entries key outer, .mark .colon => .value (.object entries key :: outer)
  | .colon entries key outer, _ =>
    .done (breakValue (.both .malformed) (.object entries key :: outer))
  | .afterItem items outer, .mark .arrayClose => complete (.array items.reverse .closed) outer
  | .afterItem items outer, .mark .comma => .value (.array items :: outer)
  | .afterItem items outer, _ => .done (breakArray (.both .malformed) items outer)
  | .afterEntry entries outer, .mark .objectClose =>
    complete (.object entries.reverse .closed) outer
  | .afterEntry entries outer, .mark .comma => .nextKey entries outer
  | .afterEntry entries outer, _ => .done (breakObject (.both .malformed) entries outer)
  | .done d, _ => .done d

/-- Takes tokens until the document is complete: the document, and the tokens after it. -/
def run (reader : Reader) (tokens : List Token) : Document × List Token :=
  match reader, tokens with
  | .done d, rest => (d, rest)
  | reader, [] => (reader.finish, [])
  | reader, t :: rest => (reader.step t).run rest

end Reader

/-- Reads one value from the front of a list of tokens. -/
def Document.ofTokens (tokens : List Token) : Document × List Token :=
  (Reader.value []).run tokens

end WireRecord.Json
