import Fastpath.Lib.OrderedMap
import Fastpath.Model.Storage

/-!
# URLs

The constructor of `fp::url` goes through a string once, from the front. One
position is common to its loops: the host, a port and a path each end where the
next of their separators is, and behind a `?` the rest is the query, pairs
between `&`.

An iterator is a position, and what the standard library asks of its iterators
is asked of them here: one that is formed is not behind the end, and a search or
a copy goes from one to another that is not before it. Whoever asks for anything
else has left the string.

The loops have a fuel, more of it than they can use. `tolower` is the one of the
C locale.
-/

namespace Fastpath

open Fastpath.Lib

/-- What the constructor does other than return. -/
inductive UrlStop where
  /-- `std::invalid_argument`. -/
  | invalidArgument (what : String)
  /-- An iterator, or a range of two, that is not in the string. -/
  | outOfRange
  | diverged
deriving DecidableEq, Repr

/-- `fp::url`. The entries of `m_query` are in the order in which they went in. -/
structure Url where
  protocol : Bytes
  host : Bytes
  port : Bytes
  path : Bytes
  query : OrderedMap Bytes Bytes

namespace Url

def colon : UInt8 := 58

def slash : UInt8 := 47

def question : UInt8 := 63

def ampersand : UInt8 := 38

def equals : UInt8 := 61

/-! ## Iterators -/

section Iterators

variable (s : Bytes)

/-- `std::advance(pos, n)`, also as `pos + n`. -/
def advance (pos n : Nat) : Except UrlStop Nat :=
  if pos + n ≤ s.length then .ok (pos + n) else .error .outOfRange

/-- The characters of a range. -/
def range (first last : Nat) : Except UrlStop Bytes :=
  if first ≤ last ∧ last ≤ s.length then .ok ((s.drop first).take (last - first))
  else .error .outOfRange

/-- `std::find_if(first, last, p)`, of which `std::find` is a case. -/
def findIf (first last : Nat) (p : UInt8 → Bool) : Except UrlStop Nat := do
  let chars ← range s first last
  pure (first + (chars.takeWhile fun c => !p c).length)

/-- `*pos` -/
def deref (pos : Nat) : Except UrlStop UInt8 :=
  match s[pos]? with
  | some c => .ok c
  | none => .error .outOfRange

end Iterators

/-- `std::search`, of something that is not empty: where it is first, or the end. -/
def search (needle : Bytes) : Bytes → Nat
  | [] => 0
  | c :: rest => if needle.isPrefixOf (c :: rest) then 0 else search needle rest + 1

/-! ## The constructor -/

/-- "://" -/
def protEnd : Bytes := [colon, slash, slash]

def tolower (c : UInt8) : UInt8 := if 65 ≤ c ∧ c ≤ 90 then c + 32 else c

def isSeparator (c : UInt8) : Bool := c = slash ∨ c = colon ∨ c = question

/-- `find_separator(begin, end)`, from a position to the end of the string. -/
def findSeparator (s : Bytes) (pos : Nat) : Except UrlStop Nat := findIf s pos s.length isSeparator

/-- The loop behind a `?`. `emplace` keeps an entry that is already there. -/
def queryLoop (s : Bytes) : Nat → Nat → OrderedMap Bytes Bytes →
    Except UrlStop (OrderedMap Bytes Bytes)
  | 0, pos, m => if pos = s.length then .ok m else .error .diverged
  | fuel + 1, pos, m =>
      if pos = s.length then .ok m
      else do
        let pos ← advance s pos 1
        let newQuery ← findIf s pos s.length (· = ampersand)
        let first ← advance s pos 1
        let keyEnd ← findIf s first newQuery (· = equals)
        let value ←
          if keyEnd ≠ newQuery then do
            let first ← advance s keyEnd 1
            range s first newQuery
          else pure []
        let key ← range s pos keyEnd
        queryLoop s fuel newQuery (m.insert key value).2

/-- The loop behind the host. -/
def partsLoop (s : Bytes) : Nat → Nat → Url → Except UrlStop Url
  | 0, pos, u => if pos = s.length then .ok u else .error .diverged
  | fuel + 1, pos, u =>
      if pos = s.length then .ok u
      else do
        let c ← deref s pos
        if c = colon then do
          let pos ← advance s pos 1
          let portEnd ← findSeparator s pos
          let port ← range s pos portEnd
          partsLoop s fuel portEnd { u with port := u.port ++ port }
        else if c = slash then do
          let pos ← advance s pos 1
          let pathEnd ← findIf s pos s.length (· = question)
          let path ← range s pos pathEnd
          partsLoop s fuel pathEnd { u with path := u.path ++ path }
        else if c = question then do
          let query ← queryLoop s s.length pos u.query
          partsLoop s fuel s.length { u with query := query }
        else .error (.invalidArgument "Invalid URL")

/-- `url(url_s)` -/
def parse (s : Bytes) : Except UrlStop Url := do
  let protocol ← range s 0 (search protEnd s)
  if search protEnd s = s.length then .error (.invalidArgument "Invalid URL - no protocol")
  else
    let pos ← advance s (search protEnd s) protEnd.length
    let hostEnd ← findSeparator s pos
    let host ← range s pos hostEnd
    partsLoop s s.length hostEnd ⟨protocol.map tolower, host.map tolower, [], [], .empty⟩

/-- `operator==` of `std::unordered_map`: as many entries, and each of the one in the other. -/
def queryEq (m m' : OrderedMap Bytes Bytes) : Bool :=
  m.entries.length = m'.entries.length ∧ ∀ e ∈ m.entries, m'.lookup e.1 = some e.2

/-- `operator==` -/
def eq (u v : Url) : Bool :=
  u.protocol = v.protocol ∧ u.host = v.host ∧ u.port = v.port ∧ u.path = v.path ∧
    queryEq u.query v.query

end Url

end Fastpath
