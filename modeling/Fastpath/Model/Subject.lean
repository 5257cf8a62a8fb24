import Fastpath.Model.Message

/-!
# Subjects and subscriptions

A subject and a subscription are never compared as strings. Both are reduced to
hashes when they are constructed, a subject to one per component and one for
the whole, and from then on only the hashes are looked at. `subject` and
`subscription` are templates over the hash functor and stay so here.

Both classes cut their string at the dots, each with a loop of its own.
`hash_elements` walks over the characters and hashes the piece behind it at
every dot; `split` jumps from one `find_first_of` to the next.

`operator=` is not the constructor's companion it looks like. It appends the
components of its argument to those that are already there, and `vector::erase`
is written in terms of it.
-/

namespace Fastpath

/-! ## Hashing -/

/-- A hash functor: its overload for a C string, and the one for a pointer and a
length. -/
structure Hasher (R : Type) where
  cstr : CString → R
  range : Bytes → R

namespace stringHash

/-- `s[i] + (result * prime)` in `size_t`. A `char` is signed, so the conversion
extends its sign. -/
def step (result : UInt64) (c : UInt8) : UInt64 :=
  c.toInt8.toInt64.toUInt64 + result * 31

/-- The loop of both overloads. -/
def hash (s : Bytes) : UInt64 := s.foldl step 0

end stringHash

def stringHash : Hasher UInt64 where
  cstr s := stringHash.hash s.bytes
  range s := stringHash.hash s

/-! ## Subjects -/

def delimiter : UInt8 := 46  -- '.'

structure Subject (R : Type) where
  components : List R
  subjectHash : R
  isAdmin : Bool
deriving DecidableEq

namespace Subject

variable {R : Type}

/-- The loop of `hash_elements` over what is left of the string; `piece` is what
lies between `start_ptr` and the loop's position. -/
def hashElementsFrom (h : Hasher R) (piece : Bytes) (out : List R) : Bytes → List R
  | [] => out ++ [h.range piece]
  | c :: rest =>
      if c = delimiter then hashElementsFrom h [] (out ++ [h.range piece]) rest
      else hashElementsFrom h (piece ++ [c]) out rest

def hashElements (h : Hasher R) (subject : CString) : List R :=
  hashElementsFrom h [] [] subject.bytes

def adminIdentifier (h : Hasher R) : R := h.cstr (.ofString "_FP")

def new [DecidableEq R] (h : Hasher R) (subject : CString) : Subject R where
  components := hashElements h subject
  subjectHash := h.cstr subject
  isAdmin := (hashElements h subject)[0]? = some (adminIdentifier h)

end Subject

/-! ## Subscriptions -/

inductive ComponentType where
  | standard | element | completion
deriving DecidableEq, Repr

structure Component (R : Type) where
  hash : R
  type : ComponentType
deriving DecidableEq

structure Subscription (R : Type) where
  components : List (Component R)
  containsWildcard : Bool
  subjectHash : R
deriving DecidableEq

namespace Subscription

def wildcardCompletion : UInt8 := 62  -- '>'

def wildcardElement : UInt8 := 42  -- '*'

/-- `split(subject)`: up to the next delimiter, or the whole rest if there is none.
The fuel is bookkeeping, every round but the last steps over a delimiter. -/
def splitFrom : Nat → Bytes → List Bytes
  | 0, subject => [subject]
  | fuel + 1, subject =>
      match subject.dropWhile (· ≠ delimiter) with
      | [] => [subject]
      | _ :: rest => subject.takeWhile (· ≠ delimiter) :: splitFrom fuel rest

def split (subject : Bytes) : List Bytes := splitFrom subject.length subject

/-- `contains_wildcard(subject)`. -/
def scanWildcard (subject : CString) : Bool :=
  subject.bytes.any fun c => c = wildcardCompletion || c = wildcardElement

variable {R : Type}

/-- What the constructor makes of one piece: the class goes by its first character,
which is the terminator for an empty piece. -/
def component (h : Hasher R) (piece : Bytes) : Component R where
  hash := h.cstr (.ofArray piece)
  type :=
    if piece.head? = some wildcardCompletion then .completion
    else if piece.head? = some wildcardElement then .element
    else .standard

def new (h : Hasher R) (subject : CString) : Subscription R where
  components :=
    if scanWildcard subject then (split subject.bytes).map (component h) else []
  containsWildcard := scanWildcard subject
  subjectHash := h.cstr subject

/-- `operator=`. -/
def assign (s other : Subscription R) : Subscription R where
  components := s.components ++ other.components
  containsWildcard := other.containsWildcard
  subjectHash := other.subjectHash

/-- The `find_if_not` of `matches`, from component number `index` on. -/
def matchesFrom [DecidableEq R] (subject : Subject R) : Nat → List (Component R) → Bool
  | _, [] => true
  | index, c :: rest =>
      (match c.type with
        | .standard => decide (subject.components[index]? = some c.hash)
        | .element | .completion => true) &&
        matchesFrom subject (index + 1) rest

def matchesSubject [DecidableEq R] (s : Subscription R) (subject : Subject R) : Bool :=
  if s.containsWildcard then
    if subject.components.length ≥ s.components.length then
      matchesFrom subject 0 s.components
    else false
  else decide (s.subjectHash = subject.subjectHash)

/-- `matchesFrom`, where `subject.m_components[index]` may be read past the end. -/
def matchesWithin [DecidableEq R] (subject : Subject R) :
    Nat → List (Component R) → Except Fault Bool
  | _, [] => .ok true
  | index, c :: rest =>
      match c.type with
      | .standard =>
          match subject.components[index]? with
          | none => .error .outOfBounds
          | some hash => if c.hash = hash then matchesWithin subject (index + 1) rest else .ok false
      | .element | .completion => matchesWithin subject (index + 1) rest

/-- `matches(subject)`, with its reads of the subject's components. -/
def matchesReading [DecidableEq R] (s : Subscription R) (subject : Subject R) : Except Fault Bool :=
  if s.containsWildcard then
    if subject.components.length ≥ s.components.length then
      matchesWithin subject 0 s.components
    else .ok false
  else .ok (decide (s.subjectHash = subject.subjectHash))

end Subscription

/-! ## The subscriptions of a connection -/

/-- `m_subscriptions` of a `peer_connection`. -/
abbrev Subscriptions := List (Subscription UInt64)

namespace Subscriptions

def addSubscription (subscriptions : Subscriptions) (subject : CString) : Subscriptions :=
  subscriptions ++ [.new stringHash subject]

/-- `vector::erase` of the first element: every later one is assigned to the place
before it, and the last place is destroyed. -/
def shiftDown : Subscriptions → Subscriptions
  | [] => []
  | [_] => []
  | s :: other :: rest => s.assign other :: shiftDown (other :: rest)

/-- `remove_subscription(subject)`, which finds by hash. -/
def removeSubscription (subscriptions : Subscriptions) (subject : CString) : Subscriptions :=
  match subscriptions.findIdx? (·.subjectHash = stringHash.cstr subject) with
  | some i => subscriptions.take i ++ shiftDown (subscriptions.drop i)
  | none => subscriptions

def isInterested (subscriptions : Subscriptions) (subject : Subject UInt64) : Bool :=
  subscriptions.any (·.matchesSubject subject)

end Subscriptions

end Fastpath
