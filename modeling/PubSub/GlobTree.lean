import Mathlib.Data.Char
import PubSub.OrderedMap
import PubSub.LabelledRun

/- The glob tree: a trie over the characters of the patterns, with a reference
   count in every node. Nothing marks the end of a pattern; it is inferred from
   the counts. Counts are unbounded here, u64 in the source. -/
namespace PubSub

abbrev Str := List Char

def asBytes (s : Str) : List UInt8 := s.flatMap String.utf8EncodeChar

/-- `b as char`: the code point with the value of the byte. -/
def byteChar (b : UInt8) : Char := Char.ofNat b.toNat

def multiCharacterWildcard : Char := '*'
def singleCharacterWildcard : Char := '?'

/-- What stops a thread instead of returning a value. -/
inductive Panic where
  | unwrapNone
  | subtractOverflow
  deriving DecidableEq, Repr

structure Node where
  token : Option Char
  children : List (Char × Node)
  count : Nat

namespace Node

def new (token : Option Char) : Node := ⟨token, [], 1⟩

def insertChild (n child : Node) : Node :=
  match child.token with
  | some c => { n with children := OrderedMap.set c child n.children }
  | none => n

def incrementCount (n : Node) : Node := { n with count := n.count + 1 }

def decrementCount (n : Node) : Except Panic Node :=
  if n.count = 0 then .error .subtractOverflow else .ok { n with count := n.count - 1 }

def childCount (n : Node) : Nat := OrderedMap.total Node.count n.children

def isTerminal (n : Node) : Bool := n.childCount < n.count

/-- The strings found so far and the shared buffer, after the worker has returned. -/
def listStringsWorker : Node → List Str → Str → List Str × Str
  | ⟨token, children, count⟩, strings, buffer =>
    let buffer := match token with
      | some t => buffer ++ [t]
      | none => buffer
    let strings := if isTerminal ⟨token, children, count⟩ then strings ++ [buffer] else strings
    let (strings, buffer) := childLoop children strings buffer
    (strings, if token.isSome then buffer.dropLast else buffer)
where
  childLoop : List (Char × Node) → List Str → Str → List Str × Str
    | [], strings, buffer => (strings, buffer)
    | (_, child) :: rest, strings, buffer =>
      let (strings, buffer) := child.listStringsWorker strings buffer
      childLoop rest strings buffer

def listStrings (n : Node) : List Str := (n.listStringsWorker [] []).1

theorem child_smaller {n child : Node} {c : Char}
    (found : OrderedMap.find c n.children = some child) : sizeOf child < sizeOf n := by
  have stored := List.sizeOf_lt_of_mem (OrderedMap.mem_of_find found)
  cases n
  simp only [Node.mk.sizeOf_spec, Prod.mk.sizeOf_spec] at stored ⊢
  omega

/-- The token test: the root has no token and takes no byte. -/
def accepts (n : Node) (s : List UInt8) (pos : Nat) : Bool :=
  match n.token with
  | some t => match s[pos]? with
    | none => false
    | some b => [byteChar b, multiCharacterWildcard, singleCharacterWildcard].contains t
  | none => true

def nextPos (n : Node) (pos : Nat) : Nat := if n.token.isSome then pos + 1 else pos

theorem descent_decreases {n child : Node} {c : Char} {s : List UInt8} {pos : Nat} {b : UInt8}
    (inside : s[n.nextPos pos]? = some b) (found : OrderedMap.find c n.children = some child) :
    Prod.Lex (· < ·) (· < ·) (s.length - n.nextPos pos, sizeOf child)
      (s.length - pos, sizeOf n) := by
  have bound := (List.getElem?_eq_some_iff.mp inside).1
  have smaller := child_smaller found
  by_cases token : n.token.isSome
  · simp only [nextPos, token, ↓reduceIte] at bound ⊢
    exact Prod.Lex.left _ _ (by omega)
  · simp only [nextPos, token, Bool.false_eq_true, ↓reduceIte]
    exact Prod.Lex.right _ smaller

theorem rescan_decreases {n : Node} {t : Char} {s : List UInt8} {pos : Nat} {b : UInt8}
    (inside : s[n.nextPos pos]? = some b) (token : n.token = some t) :
    Prod.Lex (· < ·) (· < ·) (s.length - n.nextPos pos, sizeOf n)
      (s.length - pos, sizeOf n) := by
  have bound := (List.getElem?_eq_some_iff.mp inside).1
  simp only [nextPos, token, Option.isSome_some, ↓reduceIte] at bound ⊢
  exact Prod.Lex.left _ _ (by omega)

set_option linter.unusedVariables false in
def matchStringWorker (n : Node) (s : List UInt8) (pos : Nat) : Bool :=
  if !n.accepts s pos then false
  else match inside : s[n.nextPos pos]? with
    | some b =>
      (match found : OrderedMap.find (byteChar b) n.children with
        | some child => child.matchStringWorker s (n.nextPos pos)
        | none => false) ||
      (match found : OrderedMap.find singleCharacterWildcard n.children with
        | some child => child.matchStringWorker s (n.nextPos pos)
        | none => false) ||
      (if active : n.token = some multiCharacterWildcard then
        n.matchStringWorker s (n.nextPos pos)
        else false) ||
      (match found : OrderedMap.find multiCharacterWildcard n.children with
        | some child => child.matchStringWorker s (n.nextPos pos)
        | none => false)
    | none => n.isTerminal
termination_by (s.length - pos, sizeOf n)
decreasing_by
  · exact descent_decreases inside found
  · exact descent_decreases inside found
  · exact rescan_decreases inside active
  · exact descent_decreases inside found

def matchString (n : Node) (s : Str) : Bool := n.matchStringWorker (asBytes s) 0

def updateChild (n : Node) (c : Char) (change : Node → Node) : Node :=
  match OrderedMap.find c n.children with
  | some child => { n with children := OrderedMap.set c (change child) n.children }
  | none => n

def insertPattern (n : Node) : Str → Node
  | [] => n.incrementCount
  | c :: cs =>
    match OrderedMap.find c n.children with
    | some _ => n.updateChild c fun child => child.incrementCount.insertPattern cs
    | none =>
      (n.insertChild (new (some c))).updateChild c fun child => child.insertPattern cs

def containsPattern (n : Node) : Str → Bool
  | [] => n.isTerminal
  | c :: cs =>
    match OrderedMap.find c n.children with
    | none => false
    | some child => child.containsPattern cs

def removePattern (n : Node) : Str → Except Panic Node
  | [] => .ok n
  | c :: cs =>
    match OrderedMap.find c n.children with
    | none => .error .unwrapNone
    | some child =>
      if child.count = 1 then .ok { n with children := OrderedMap.erase c n.children }
      else do
        let child ← child.decrementCount
        let child ← child.removePattern cs
        .ok { n with children := OrderedMap.set c child n.children }

end Node

structure GlobTree where
  root : Node

namespace GlobTree

def new : GlobTree := ⟨⟨none, [], 0⟩⟩

def insert (t : GlobTree) (pattern : Str) : GlobTree := ⟨t.root.insertPattern pattern⟩

def check (t : GlobTree) (s : Str) : Bool := t.root.matchString s

def contains (t : GlobTree) (pattern : Str) : Bool := t.root.containsPattern pattern

def list (t : GlobTree) : List Str := t.root.listStrings

def remove (t : GlobTree) (pattern : Str) : Except Panic (Except String Unit × GlobTree) :=
  if !t.contains pattern then .ok (.error "Not found", t)
  else do
    let root ← t.root.removePattern pattern
    .ok (.ok (), ⟨root⟩)

end GlobTree

inductive TreeCall where
  | insert (pattern : Str)
  | remove (pattern : Str)
  deriving DecidableEq, Repr

inductive TreeStep : GlobTree → TreeCall → GlobTree → Prop where
  | insert (t : GlobTree) (p : Str) : TreeStep t (.insert p) (t.insert p)
  | remove {t u : GlobTree} {p : Str} {r : Except String Unit} (done : t.remove p = .ok (r, u)) :
      TreeStep t (.remove p) u

abbrev TreeRun (calls : List TreeCall) (t : GlobTree) : Prop :=
  LabelledRun.Run TreeStep GlobTree.new calls t

def GlobTree.Reachable (t : GlobTree) : Prop := ∃ calls, TreeRun calls t

end PubSub
