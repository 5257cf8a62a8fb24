import Fastpath.Model.Subject

/-!
# The two tokenisers, position by position

`Fastpath.Model.Subject` cuts strings as lists. Here are the loops themselves,
which cut the same string in two ways. `subscription::split` has a
`std::string` and goes from one `find_first_of` to the next, with `npos` as the
position behind the last dot. `subject::hash_elements` has a pointer, finds the
end by `strlen` and keeps a second pointer to where the piece at hand began.
The one hashes its pieces as C strings and the other by pointer and length.

What is behind a pointer is the memory from there on; for a C string it ends
with the terminator, and to look further is to read out of bounds. Positions
and lengths are of the type `size_t`.
-/

namespace Fastpath

/-- A `const char *` that is also a `std::string`: no distance in it is more than a `long` can
hold, so that `npos` is far behind its end. -/
structure Text extends CString where
  fits : bytes.length < 2 ^ 63

namespace Tokens

/-! ## `tf::string_hash` -/

/-- `operator()(s)`, in the middle of its loop. -/
def hashCString (result : UInt64) : Bytes → Except Fault UInt64
  | [] => .error .outOfBounds
  | c :: memory => if c ≠ 0 then hashCString (stringHash.step result c) memory else .ok result

/-- `operator()(s, length)`, in the middle of its loop. -/
def hashLength (result : UInt64) : Nat → Bytes → Except Fault UInt64
  | 0, _ => .ok result
  | _ + 1, [] => .error .outOfBounds
  | length + 1, c :: memory => hashLength (stringHash.step result c) length memory

/-! ## `subscription::split` -/

/-- `std::string::npos` -/
def npos : UInt64 := -1

/-- `subject.find_first_of(delimiter, pos)` -/
def findFirstOf (subject : Bytes) (pos : UInt64) : UInt64 :=
  match (subject.drop pos.toNat).findIdx? (· = delimiter) with
  | some i => pos + UInt64.ofNat i
  | none => npos

/-- `subject.substr(pos, n)`, which goes to the end if there are fewer than `n`. A position behind
the end is out of range. -/
def substr (subject : Bytes) (pos n : UInt64) : Except Fault Bytes :=
  if pos.toNat ≤ subject.length then .ok ((subject.drop pos.toNat).take n.toNat)
  else .error .outOfBounds

/-- The loop of `split`. -/
def splitLoop (subject : Bytes) :
    Nat → UInt64 → UInt64 → List Bytes → Except Fault (List Bytes)
  | 0, _, _, _ => .error .diverged
  | fuel + 1, start, stop, out =>
      if stop ≤ npos then do
        let piece ← substr subject start (stop - start)
        let out := out ++ [piece]
        if stop = npos then pure out
        else splitLoop subject fuel (stop + 1) (findFirstOf subject (stop + 1)) out
      else pure out

/-- `split(subject, out)`. The fuel is bookkeeping: there is a round for each dot, and one more. -/
def split (subject : Bytes) : Except Fault (List Bytes) :=
  splitLoop subject (subject.length + 1) 0 (findFirstOf subject 0) []

/-! ## `subject::hash_elements` -/

def strlen : Bytes → Except Fault UInt64
  | [] => .error .outOfBounds
  | c :: memory => if c ≠ 0 then do pure ((← strlen memory) + 1) else pure 0

/-- `hasher()(start_ptr, l)`, where `l` is the distance to `last`, a `long` that becomes a
`size_t`. -/
def hashTo (memory : Bytes) (startPtr last : Nat) : Except Fault UInt64 :=
  let l : Int := last - startPtr
  hashLength 0 (UInt64.ofInt l).toNat (memory.drop startPtr)

/-- The loop of `hash_elements`, and the piece that is left behind it. Pointers are offsets from
`subject`. -/
def elementsLoop (memory : Bytes) (len : UInt64) :
    Nat → UInt64 → Nat → List UInt64 → Except Fault (List UInt64)
  | 0, _, _, _ => .error .diverged
  | fuel + 1, i, startPtr, out =>
      if i < len then
        match memory[i.toNat]? with
        | none => .error .outOfBounds
        | some c =>
            if c = delimiter then do
              let hash ← hashTo memory startPtr i.toNat
              -- `start_ptr + (l + 1)`, that is one behind the dot
              elementsLoop memory len fuel (i + 1) (i.toNat + 1) (out ++ [hash])
            else elementsLoop memory len fuel (i + 1) startPtr out
      else do
        let hash ← hashTo memory startPtr len.toNat
        pure (out ++ [hash])

/-- `hash_elements(subject, out)` -/
def hashElements (memory : Bytes) : Except Fault (List UInt64) := do
  let len ← strlen memory
  elementsLoop memory len (len.toNat + 1) 0 0 []

end Tokens

end Fastpath
