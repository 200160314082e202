import DebianPackaging.Yaml.Document
import DebianPackaging.Yaml.Node
import DebianPackaging.Yaml.ScalarText

namespace DebianPackaging.Yaml

open Text

structure FlowEntry where
  item : Node
  value? : Option Node

namespace FlowEntry

def asItem (e : FlowEntry) : Node :=
  match e.value? with
  | none => e.item
  | some value => .map [(e.item, value)]

def asRow (e : FlowEntry) : Node × Node :=
  (e.item, e.value?.getD .empty)

end FlowEntry

/-- A scalar or a collection in brackets, with the place behind it; the entries in brackets are read by
`entries`, which starts behind the opening bracket and gets the closing one. -/
def inlineNode (entries : Char → Cursor → Option (List FlowEntry × Cursor)) (block : Bool)
    (indent : Nat) (c : Cursor) : Option (Node × Cursor) :=
  match c.rest with
  | '[' :: _ => do
      let (es, after) ← entries ']' c.passIndicator
      return (.list (es.map FlowEntry.asItem), after)
  | '\x7b' :: _ => do
      let (es, after) ← entries '\x7d' c.passIndicator
      return (.map (es.map FlowEntry.asRow), after)
  | d :: rest =>
      if d = '"' || d = '\'' then
        (quotedText? d rest).map fun (t, after) => (.quoted t, c.passTo after)
      else if startsPlain block c.rest then
        let (t, after) := plainText block indent c.rest
        some (.plain t, c.passTo after)
      else
        none
  | [] => none

/-- The most characters between the start of a key and its colon. -/
def longestKey : Nat := 1024

def Cursor.reaches (c colon : Cursor) : Bool :=
  colon.line = c.line && c.rest.length - colon.rest.length ≤ longestKey

mutual

def flowValue (fuel : Nat) (close : Char) (colon : Cursor) : Option (Node × Cursor) :=
  match fuel with
  | 0 => none
  | fuel + 1 => do
      let start := colon.passIndicator.gap false
      if start.atAny [',', close] then
        return (.empty, start)
      let (value, behind) ← inlineNode (flowEntries fuel) false 0 start
      return (value, behind.gap false)

def flowEntry (fuel : Nat) (close : Char) (c : Cursor) : Option (FlowEntry × Cursor) :=
  match fuel with
  | 0 => none
  | fuel + 1 => do
      if c.atAny ['?'] then
        let start := c.passIndicator.gap false
        let (key, next) ←
          if start.atAny [':', ',', close] then some (.empty, start)
          else (inlineNode (flowEntries fuel) false 0 start).map fun (key, behind) =>
            (key, behind.gap false)
        if next.atAny [':'] then
          let (value, after) ← flowValue fuel close next
          return (⟨key, some value⟩, after)
        return (⟨key, some .empty⟩, next)
      let (item, behind) ← inlineNode (flowEntries fuel) false 0 c
      let next := behind.gap false
      if next.atAny [':'] && c.reaches next then
        let (value, after) ← flowValue fuel close next
        return (⟨item, some value⟩, after)
      return (⟨item, none⟩, next)

def flowEntries (fuel : Nat) (close : Char) (c : Cursor) : Option (List FlowEntry × Cursor) :=
  match fuel with
  | 0 => none
  | fuel + 1 => do
      let start := c.gap false
      if start.atAny [close] then
        return ([], start.passIndicator)
      let (entry, next) ← flowEntry fuel close start
      if next.atAny [','] then
        let (more, after) ← flowEntries fuel close next.passIndicator
        return (entry :: more, after)
      if next.atAny [close] then
        return ([entry], next.passIndicator)
      none

end

def blockInline (fuel indent : Nat) (c : Cursor) : Option (Node × Cursor) :=
  inlineNode (flowEntries fuel) true indent c

def colonAfter? (c behind : Cursor) : Option Cursor :=
  let next := behind.gap true
  if c.fresh && c.reaches next && next.atIndicator ':' then some next else none

/-- What belongs to an indicator of a block map whose keys stand in a column: nothing, a list whose
dashes may stand in that column, too, or a node that is indented further. -/
def belonging (node items : Cursor → Option (Node × Cursor)) (column : Nat) (start : Cursor) :
    Option (Node × Cursor) :=
  if start.atEnd || start.column < column then some (.empty, start)
  else if start.column = column then
    if start.atIndicator '-' then items start else some (.empty, start)
  else node start

mutual

/-- The node at a token, with the place of the token behind it. Its continuation lines are indented by
`indent` at least. -/
def blockNode (fuel indent : Nat) (c : Cursor) : Option (Node × Cursor) :=
  match fuel with
  | 0 => none
  | fuel + 1 => do
      if c.atIndicator '-' then
        if !c.fresh then none
        blockList fuel c.column c
      else if c.atIndicator '?' then
        if !c.fresh then none
        let (rows, after) ← blockRows fuel c.column c
        return (.map rows, after)
      else
        let (node, behind) ← blockInline fuel indent c
        if (colonAfter? c behind).isNone then
          return (node, behind.gap true)
        let (rows, after) ← blockRows fuel c.column c
        return (.map rows, after)

def blockList (fuel column : Nat) (c : Cursor) : Option (Node × Cursor) :=
  match fuel with
  | 0 => none
  | fuel + 1 => (blockItems fuel column c).map fun (items, after) => (.list items, after)

def blockItems (fuel column : Nat) (c : Cursor) : Option (List Node × Cursor) :=
  match fuel with
  | 0 => none
  | fuel + 1 => do
      let start := c.passIndicator.refresh.gap true
      let (item, next) ←
        if start.atEnd || start.column ≤ column then some (.empty, start)
        else blockNode fuel (column + 1) start
      if next.atEnd || next.column < column then
        return ([item], next)
      if next.column = column then
        if next.atIndicator '-' then
          let (more, after) ← blockItems fuel column next
          return (item :: more, after)
        return ([item], next)
      none

def blockRow (fuel column : Nat) (c : Cursor) : Option ((Node × Node) × Cursor) :=
  match fuel with
  | 0 => none
  | fuel + 1 => do
      let belongs := belonging (blockNode fuel (column + 1)) (blockList fuel column) column
      if c.atIndicator '?' then
        let (key, next) ← belongs (c.passIndicator.refresh.gap true)
        if next.column = column && next.atIndicator ':' then
          let (value, after) ← belongs (next.passIndicator.refresh.gap true)
          return ((key, value), after)
        return ((key, .empty), next)
      let (key, behind) ← blockInline fuel (column + 1) c
      let colon ← colonAfter? c behind
      let (value, after) ← belongs (colon.passIndicator.gap true)
      return ((key, value), after)

def blockRows (fuel column : Nat) (c : Cursor) : Option (List (Node × Node) × Cursor) :=
  match fuel with
  | 0 => none
  | fuel + 1 => do
      let (row, next) ← blockRow fuel column c
      if next.atEnd || next.column < column then
        return ([row], next)
      if next.column = column then
        let (more, after) ← blockRows fuel column next
        return (row :: more, after)
      none

end

/-- Each reader takes one unit, and no more than three of them start at the same token. -/
def enoughFuel (c : Cursor) : Nat :=
  4 * c.rest.length + 4

def readDocument (c : Cursor) : Option Value :=
  let start := c.gap true
  if start.atEnd then
    some .null
  else
    match blockNode (enoughFuel start) 0 start with
    | some (node, next) => if next.atEnd then node.value? else none
    | none => none

def allowedRanges : List (Nat × Nat) :=
  [(0x09, 0x0a), (0x0d, 0x0d), (0x20, 0x7e), (0x85, 0x85), (0xa0, 0xd7ff), (0xe000, 0xfffd),
    (0x10000, 0x10ffff)]

def byteOrderMark : Char := Char.ofNat 0xfeff

/-- Anchors, tags, block scalars and directives are not read. -/
def read (t : Text) : Option Value :=
  if t.all (inRanges allowedRanges) then
    (documentStart? (if t.head? = some byteOrderMark then t.tail else t)).bind readDocument
  else
    none

end DebianPackaging.Yaml
