import Fastpath.Model.Access

/-!
# When two messages are equal

Two messages are the same if their flags and subjects are and if their fields
are, one by one and to the end of both. `operator==` walks over the fields of
the one on its left and goes along the fields of the other with it, whether
there are as many or not. If there are more of them it stops too early and
finds the two equal; if there are fewer it goes on behind the last of them.
Either may happen at any depth.

`compare` says where the walk ends. It is right about the two messages unless
one list is used up before the other with nothing found that differs.
-/

namespace Fastpath

/-! ## The same message -/

mutual

def Field.Same : Field → Field → Prop
  | .scalar identifier type data, .scalar identifier' type' data' =>
      identifier = identifier' ∧ type = type' ∧ data.length = data'.length ∧
        Field.rawArray data = Field.rawArray data'
  | .dateTime identifier length seconds microseconds,
    .dateTime identifier' length' seconds' microseconds' =>
      identifier = identifier' ∧ length = length' ∧ seconds = seconds' ∧
        microseconds = microseconds'
  | .smallData identifier type value, .smallData identifier' type' value' =>
      identifier = identifier' ∧ type = type' ∧ value = value'
  | .largeData identifier type value, .largeData identifier' type' value' =>
      identifier = identifier' ∧ type = type' ∧ value = value'
  | .message identifier msg, .message identifier' msg' =>
      identifier = identifier' ∧ Message.Same msg msg'
  | _, _ => False
termination_by structural f => f

/-- Flags and subject agree, and so do the fields. -/
def Message.Same : Message → Message → Prop
  | ⟨flags, subject, payload, _⟩, ⟨flags', subject', payload', _⟩ =>
      (flags = flags' ∧ CString.ofArray subject = CString.ofArray subject') ∧
        SameFields payload payload'
termination_by structural m => m

/-- As many on either side, and the same one by one. -/
def SameFields : List Field → List Field → Prop
  | [], [] => True
  | field :: rest, field' :: rest' => field.Same field' ∧ SameFields rest rest'
  | _, _ => False
termination_by structural fields => fields

end

/-! ## Where the walk ends -/

/-- How two lists compare that are walked side by side. -/
inductive Outcome where
  /-- Nothing differs, and both end together. -/
  | same
  /-- Something differs. -/
  | differs
  /-- The left one ends, somewhere, and the right one goes on; nothing differs. -/
  | shorter
  /-- The left one goes on where the right one has ended. -/
  | longer
deriving DecidableEq

/-- What is left is walked as long as nothing differs and nothing is missing. -/
def Outcome.andThen : Outcome → Outcome → Outcome
  | .same, rest => rest
  | .differs, _ => .differs
  | .shorter, .same => .shorter
  | .shorter, rest => rest
  | .longer, _ => .longer

mutual

def Field.compare : Field → Field → Outcome
  | .scalar identifier type data, .scalar identifier' type' data' =>
      if Field.sameBase identifier identifier' type type' data.length data'.length &&
        Field.rawArray data = Field.rawArray data' then .same else .differs
  | .dateTime identifier length seconds microseconds,
    .dateTime identifier' length' seconds' microseconds' =>
      if Field.sameBase identifier identifier' .dateTime .dateTime length length' &&
        seconds = seconds' && microseconds = microseconds' then .same else .differs
  | .smallData identifier type value, .smallData identifier' type' value' =>
      if Field.sameBase identifier identifier' type type' value.length value'.length &&
        value = value' then .same else .differs
  | .largeData identifier type value, .largeData identifier' type' value' =>
      if Field.sameBase identifier identifier' type type' value.length value'.length &&
        value = value' then .same else .differs
  | .message identifier msg, .message identifier' msg' =>
      if identifier = identifier' then Message.compare msg msg' else .differs
  | _, _ => .differs
termination_by structural f => f

def Message.compare : Message → Message → Outcome
  | ⟨flags, subject, payload, _⟩, ⟨flags', subject', payload', _⟩ =>
      if flags = flags' ∧ CString.ofArray subject = CString.ofArray subject' then
        compareFields payload payload'
      else .differs
termination_by structural m => m

def compareFields : List Field → List Field → Outcome
  | [], [] => .same
  | [], _ :: _ => .shorter
  | _ :: _, [] => .longer
  | field :: rest, field' :: rest' => (field.compare field').andThen (compareFields rest rest')
termination_by structural fields => fields

end

/-- What `operator==` answers where a walk ends. -/
def Outcome.answer : Outcome → Except Fault Bool
  | .same | .shorter => .ok true
  | .differs => .ok false
  | .longer => .error .outOfBounds

theorem Outcome.answer_ite (b : Bool) :
    (if b then Outcome.same else Outcome.differs).answer = .ok b := by
  cases b <;> rfl

theorem Outcome.answer_andThen (first rest : Outcome) :
    (first.andThen rest).answer =
      match first.answer with
      | .ok true => rest.answer
      | answer => answer := by
  cases first <;> cases rest <;> rfl

mutual

theorem Field.equal_eq : ∀ field field' : Field, field.equal field' = (field.compare field').answer
  | .scalar .., .scalar .. => (Outcome.answer_ite _).symm
  | .dateTime .., .dateTime .. => (Outcome.answer_ite _).symm
  | .smallData .., .smallData .. => (Outcome.answer_ite _).symm
  | .largeData .., .largeData .. => (Outcome.answer_ite _).symm
  | .message identifier msg, .message identifier' msg' => by
      have ih := Message.equal_eq msg msg'
      rw [Field.equal, Field.compare, Field.sameBase]
      by_cases hid : identifier = identifier'
      · rw [if_pos (by simpa using hid), if_pos hid, ih]
      · rw [if_neg (by simpa using hid), if_neg hid]
        rfl
  | .scalar .., .dateTime .. | .scalar .., .smallData .. | .scalar .., .largeData ..
  | .scalar .., .message .. => rfl
  | .dateTime .., .scalar .. | .dateTime .., .smallData .. | .dateTime .., .largeData ..
  | .dateTime .., .message .. => rfl
  | .smallData .., .scalar .. | .smallData .., .dateTime .. | .smallData .., .largeData ..
  | .smallData .., .message .. => rfl
  | .largeData .., .scalar .. | .largeData .., .dateTime .. | .largeData .., .smallData ..
  | .largeData .., .message .. => rfl
  | .message .., .scalar .. | .message .., .dateTime .. | .message .., .smallData ..
  | .message .., .largeData .. => rfl
termination_by structural field => field

theorem Message.equal_eq : ∀ m m' : Message, m.equal m' = (m.compare m').answer
  | ⟨flags, subject, payload, _⟩, ⟨flags', subject', payload', _⟩ => by
      have ih := equalFields_eq payload payload'
      rw [Message.equal, Message.compare]
      split
      · exact ih
      · rfl
termination_by structural m => m

theorem equalFields_eq : ∀ fields fields' : List Field,
    equalFields fields fields' = (compareFields fields fields').answer
  | [], [] => rfl
  | [], _ :: _ => rfl
  | _ :: _, [] => rfl
  | field :: rest, field' :: rest' => by
      have hfield := Field.equal_eq field field'
      have hrest := equalFields_eq rest rest'
      rw [equalFields, compareFields, hfield, hrest]
      exact (Outcome.answer_andThen _ _).symm
termination_by structural fields => fields

end

theorem Outcome.ite_eq_same (b : Bool) :
    (if b then Outcome.same else Outcome.differs) = .same ↔ b = true := by
  cases b <;> decide

theorem Outcome.andThen_eq_same {first rest : Outcome} :
    first.andThen rest = .same ↔ first = .same ∧ rest = .same := by
  cases first <;> cases rest <;> decide

theorem Field.sameBase_eq_true {identifier identifier' : CString} {type type' : StorageType}
    {length length' : Nat} :
    Field.sameBase identifier identifier' type type' length length' = true ↔
      identifier = identifier' ∧ type = type' ∧ length = length' := by
  rw [Field.sameBase, Bool.and_eq_true, Bool.and_eq_true, decide_eq_true_iff, decide_eq_true_iff,
    decide_eq_true_iff, and_assoc]

mutual

theorem Field.compare_eq_same : ∀ field field' : Field,
    field.compare field' = .same ↔ field.Same field'
  | .scalar .., .scalar .. => by
      rw [Field.compare, Field.Same, Outcome.ite_eq_same, Bool.and_eq_true,
        Field.sameBase_eq_true, decide_eq_true_iff, and_assoc, and_assoc]
  | .dateTime .., .dateTime .. => by
      rw [Field.compare, Field.Same, Outcome.ite_eq_same, Bool.and_eq_true, Bool.and_eq_true,
        Field.sameBase_eq_true, decide_eq_true_iff, decide_eq_true_iff]
      simp only [true_and, and_assoc]
  | .smallData .., .smallData .. => by
      rw [Field.compare, Field.Same, Outcome.ite_eq_same, Bool.and_eq_true,
        Field.sameBase_eq_true, decide_eq_true_iff]
      exact ⟨fun ⟨⟨hid, htype, _⟩, hvalue⟩ => ⟨hid, htype, hvalue⟩,
        fun ⟨hid, htype, hvalue⟩ => ⟨⟨hid, htype, congrArg List.length hvalue⟩, hvalue⟩⟩
  | .largeData .., .largeData .. => by
      rw [Field.compare, Field.Same, Outcome.ite_eq_same, Bool.and_eq_true,
        Field.sameBase_eq_true, decide_eq_true_iff]
      exact ⟨fun ⟨⟨hid, htype, _⟩, hvalue⟩ => ⟨hid, htype, hvalue⟩,
        fun ⟨hid, htype, hvalue⟩ => ⟨⟨hid, htype, congrArg List.length hvalue⟩, hvalue⟩⟩
  | .message identifier msg, .message identifier' msg' => by
      have ih := Message.compare_eq_same msg msg'
      rw [Field.compare, Field.Same]
      by_cases hid : identifier = identifier'
      · rw [if_pos hid, ih, and_iff_right hid]
      · rw [if_neg hid]
        exact ⟨fun h => (by cases h), fun h => absurd h.1 hid⟩
  | .scalar .., .dateTime .. | .scalar .., .smallData .. | .scalar .., .largeData ..
  | .scalar .., .message .. => by simp [Field.compare, Field.Same]
  | .dateTime .., .scalar .. | .dateTime .., .smallData .. | .dateTime .., .largeData ..
  | .dateTime .., .message .. => by simp [Field.compare, Field.Same]
  | .smallData .., .scalar .. | .smallData .., .dateTime .. | .smallData .., .largeData ..
  | .smallData .., .message .. => by simp [Field.compare, Field.Same]
  | .largeData .., .scalar .. | .largeData .., .dateTime .. | .largeData .., .smallData ..
  | .largeData .., .message .. => by simp [Field.compare, Field.Same]
  | .message .., .scalar .. | .message .., .dateTime .. | .message .., .smallData ..
  | .message .., .largeData .. => by simp [Field.compare, Field.Same]
termination_by structural field => field

theorem Message.compare_eq_same : ∀ m m' : Message, m.compare m' = .same ↔ m.Same m'
  | ⟨flags, subject, payload, _⟩, ⟨flags', subject', payload', _⟩ => by
      have ih := compareFields_eq_same payload payload'
      rw [Message.compare, Message.Same]
      split
      · next hhead => rw [ih, and_iff_right hhead]
      · next hhead => exact ⟨fun h => (by cases h), fun h => absurd h.1 hhead⟩
termination_by structural m => m

theorem compareFields_eq_same : ∀ fields fields' : List Field,
    compareFields fields fields' = .same ↔ SameFields fields fields'
  | [], [] => by simp [compareFields, SameFields]
  | [], _ :: _ => by simp [compareFields, SameFields]
  | _ :: _, [] => by simp [compareFields, SameFields]
  | field :: rest, field' :: rest' => by
      rw [compareFields, SameFields, Outcome.andThen_eq_same, Field.compare_eq_same field field',
        compareFields_eq_same rest rest']
termination_by structural fields => fields

end

/-! ## Being the same is an equivalence -/

mutual

theorem Field.same_refl : ∀ field : Field, field.Same field
  | .scalar .. => ⟨rfl, rfl, rfl, rfl⟩
  | .dateTime .. => ⟨rfl, rfl, rfl, rfl⟩
  | .smallData .. => ⟨rfl, rfl, rfl⟩
  | .largeData .. => ⟨rfl, rfl, rfl⟩
  | .message _ msg => ⟨rfl, Message.same_refl msg⟩
termination_by structural field => field

theorem Message.same_refl : ∀ m : Message, m.Same m
  | ⟨_, _, payload, _⟩ => ⟨⟨rfl, rfl⟩, sameFields_refl payload⟩
termination_by structural m => m

theorem sameFields_refl : ∀ fields : List Field, SameFields fields fields
  | [] => trivial
  | field :: rest => ⟨Field.same_refl field, sameFields_refl rest⟩
termination_by structural fields => fields

end

mutual

theorem Field.same_symm : ∀ field field' : Field, field.Same field' → field'.Same field
  | .scalar .., field', h => by
      cases field' with
      | scalar => exact ⟨h.1.symm, h.2.1.symm, h.2.2.1.symm, h.2.2.2.symm⟩
      | _ => exact h.elim
  | .dateTime .., field', h => by
      cases field' with
      | dateTime => exact ⟨h.1.symm, h.2.1.symm, h.2.2.1.symm, h.2.2.2.symm⟩
      | _ => exact h.elim
  | .smallData .., field', h => by
      cases field' with
      | smallData => exact ⟨h.1.symm, h.2.1.symm, h.2.2.symm⟩
      | _ => exact h.elim
  | .largeData .., field', h => by
      cases field' with
      | largeData => exact ⟨h.1.symm, h.2.1.symm, h.2.2.symm⟩
      | _ => exact h.elim
  | .message _ msg, field', h => by
      cases field' with
      | message _ msg' => exact ⟨h.1.symm, Message.same_symm msg msg' h.2⟩
      | _ => exact h.elim
termination_by structural field => field

theorem Message.same_symm : ∀ m m' : Message, m.Same m' → m'.Same m
  | ⟨_, _, payload, _⟩, ⟨_, _, payload', _⟩, h =>
      ⟨⟨h.1.1.symm, h.1.2.symm⟩, sameFields_symm payload payload' h.2⟩
termination_by structural m => m

theorem sameFields_symm : ∀ fields fields' : List Field,
    SameFields fields fields' → SameFields fields' fields
  | [], [], _ => trivial
  | [], _ :: _, h => h.elim
  | _ :: _, [], h => h.elim
  | field :: rest, field' :: rest', h =>
      ⟨Field.same_symm field field' h.1, sameFields_symm rest rest' h.2⟩
termination_by structural fields => fields

end

mutual

theorem Field.same_trans : ∀ field field' field'' : Field,
    field.Same field' → field'.Same field'' → field.Same field''
  | .scalar .., field', field'', h, h' => by
      cases field' with
      | scalar =>
          cases field'' with
          | scalar =>
              exact ⟨h.1.trans h'.1, h.2.1.trans h'.2.1, h.2.2.1.trans h'.2.2.1,
                h.2.2.2.trans h'.2.2.2⟩
          | _ => exact h'.elim
      | _ => exact h.elim
  | .dateTime .., field', field'', h, h' => by
      cases field' with
      | dateTime =>
          cases field'' with
          | dateTime =>
              exact ⟨h.1.trans h'.1, h.2.1.trans h'.2.1, h.2.2.1.trans h'.2.2.1,
                h.2.2.2.trans h'.2.2.2⟩
          | _ => exact h'.elim
      | _ => exact h.elim
  | .smallData .., field', field'', h, h' => by
      cases field' with
      | smallData =>
          cases field'' with
          | smallData => exact ⟨h.1.trans h'.1, h.2.1.trans h'.2.1, h.2.2.trans h'.2.2⟩
          | _ => exact h'.elim
      | _ => exact h.elim
  | .largeData .., field', field'', h, h' => by
      cases field' with
      | largeData =>
          cases field'' with
          | largeData => exact ⟨h.1.trans h'.1, h.2.1.trans h'.2.1, h.2.2.trans h'.2.2⟩
          | _ => exact h'.elim
      | _ => exact h.elim
  | .message _ msg, field', field'', h, h' => by
      cases field' with
      | message _ msg' =>
          cases field'' with
          | message _ msg'' => exact ⟨h.1.trans h'.1, Message.same_trans msg msg' msg'' h.2 h'.2⟩
          | _ => exact h'.elim
      | _ => exact h.elim
termination_by structural field => field

theorem Message.same_trans : ∀ m m' m'' : Message, m.Same m' → m'.Same m'' → m.Same m''
  | ⟨_, _, payload, _⟩, ⟨_, _, payload', _⟩, ⟨_, _, payload'', _⟩, h, h' =>
      ⟨⟨h.1.1.trans h'.1.1, h.1.2.trans h'.1.2⟩,
        sameFields_trans payload payload' payload'' h.2 h'.2⟩
termination_by structural m => m

theorem sameFields_trans : ∀ fields fields' fields'' : List Field,
    SameFields fields fields' → SameFields fields' fields'' → SameFields fields fields''
  | [], [], [], _, _ => trivial
  | [], [], _ :: _, _, h' => h'.elim
  | [], _ :: _, _, h, _ => h.elim
  | _ :: _, [], _, h, _ => h.elim
  | _ :: _, _ :: _, [], _, h' => h'.elim
  | field :: rest, field' :: rest', field'' :: rest'', h, h' =>
      ⟨Field.same_trans field field' field'' h.1 h'.1,
        sameFields_trans rest rest' rest'' h.2 h'.2⟩
termination_by structural fields => fields

end

/-! ## Where it is decided -/

/-- `a == b` comes to an answer, and to the right one. -/
def Message.Decides (a b : Message) : Prop :=
  ∃ answer, a.equal b = .ok answer ∧ (answer = true ↔ a.Same b)

/-- `a == b` is right if and only if something differs before a list of `a` has run out of
fields of `b`, or every list is as long as the one beside it and nothing differs. -/
theorem Message.decides_iff (a b : Message) :
    a.Decides b ↔ a.compare b = .differs ∨ a.compare b = .same := by
  rw [Message.Decides, Message.equal_eq, ← Message.compare_eq_same]
  cases a.compare b with
  | same => exact ⟨fun _ => .inr rfl, fun _ => ⟨true, rfl, by decide⟩⟩
  | differs => exact ⟨fun _ => .inl rfl, fun _ => ⟨false, rfl, by decide⟩⟩
  | shorter =>
      refine ⟨fun ⟨answer, hanswer, hright⟩ => ?_, fun h => (by simp at h)⟩
      cases hanswer
      exact absurd (hright.mp rfl) (by decide)
  | longer => exact ⟨fun ⟨answer, hanswer, _⟩ => (by cases hanswer), fun h => (by simp at h)⟩

/-- Where it is right, `==` does not depend on the order of its sides. -/
theorem Message.Decides.comm {a b : Message} (h : a.Decides b) (h' : b.Decides a) :
    a.equal b = b.equal a := by
  obtain ⟨answer, hequal, hsame⟩ := h
  obtain ⟨answer', hequal', hsame'⟩ := h'
  have heq : answer = answer' := by
    rw [Bool.eq_iff_iff, hsame, hsame']
    exact ⟨Message.same_symm a b, Message.same_symm b a⟩
  rw [hequal, hequal', heq]

/-- Where it is right, it may be followed from one message to the next. -/
theorem Message.Decides.trans {a b c : Message} (hab : a.Decides b) (hbc : b.Decides c)
    (hac : a.Decides c) (h : a.equal b = .ok true) (h' : b.equal c = .ok true) :
    a.equal c = .ok true := by
  obtain ⟨answer, hequal, hsame⟩ := hab
  obtain ⟨answer', hequal', hsame'⟩ := hbc
  obtain ⟨answer'', hequal'', hsame''⟩ := hac
  rw [hequal] at h
  rw [hequal'] at h'
  cases h
  cases h'
  rw [hequal'', hsame''.mpr (Message.same_trans a b c (hsame.mp rfl) (hsame'.mp rfl))]

/-- A message of one field, and one that has another behind it. -/
theorem shorter_not_decided :
    let a := (MutableMessage.addField (.scalar (.ofString "A") .uint8 [1]) Message.new).1
    let b := (MutableMessage.addField (.scalar (.ofString "B") .uint8 [2]) a).1
    a.equal b = .ok true ∧ ¬ a.Same b ∧ b.equal a = .error .outOfBounds ∧
      ¬ a.Decides b ∧ ¬ b.Decides a := by
  intro a b
  have hequal : a.equal b = .ok true := rfl
  have hnot : ¬ a.Same b := fun h => h.2.2
  refine ⟨hequal, hnot, rfl, ?_, ?_⟩
  · intro h
    obtain ⟨answer, hanswer, hsame⟩ := h
    rw [hequal] at hanswer
    cases hanswer
    exact hnot (hsame.mp rfl)
  · intro h
    obtain ⟨answer, hanswer, -⟩ := h
    have hpast : b.equal a = .error .outOfBounds := rfl
    rw [hpast] at hanswer
    cases hanswer

end Fastpath
