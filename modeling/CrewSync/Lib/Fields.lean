import CrewSync.Lib.Json

/-! JSON values, and objects that are read by the names of their fields. A field that the writer leaves unset is not
    sent, and its reader falls back. Numbers are integers. -/

namespace Fields

inductive Value where
  | null
  | bool (b : Bool)
  | num (n : Int)
  | str (s : String)
  | arr (vs : List Value)
  | obj (fields : List (String × Value))

abbrev Object := List (String × Value)

def Value.isNull : Value → Bool
  | .null => true
  | _ => false

mutual
/-- The value without the fields that are null. -/
def Value.compact : Value → Value
  | .obj fields => .obj (compactFields fields)
  | v => v

def compactFields : Object → Object
  | [] => []
  | m :: o => if m.2.isNull then compactFields o else compactMember m :: compactFields o

def compactMember : String × Value → String × Value
  | (name, v) => (name, v.compact)
end

mutual
/-- The text of the value, without blanks. -/
def Value.text : Value → List Char
  | .null => Json.Scalar.null.text
  | .bool b => (Json.Scalar.bool b).text
  | .num n => (Json.Scalar.num n).text
  | .str s => Json.stringText s.toList
  | .arr vs => '[' :: (List.intercalate [','] (texts vs) ++ [']'])
  | .obj fields => '{' :: (List.intercalate [','] (memberTexts fields) ++ ['}'])

def texts : List Value → List (List Char)
  | [] => []
  | v :: vs => v.text :: texts vs

def memberTexts : Object → List (List Char)
  | [] => []
  | m :: o => memberText m :: memberTexts o

def memberText : String × Value → List Char
  | (name, v) => Json.stringText name.toList ++ ':' :: v.text
end

/-! ### Types that are sent -/

/-- How the values of a type are written and read. -/
class Serde (α : Type) where
  ser : α → Value
  de : Value → Option α
  de_ser : ∀ a, de (ser a) = some a

/-- The type has no value that is written as null, or with nulls to leave out. -/
class Plain (α : Type) [Serde α] : Prop where
  compact_ser : ∀ a : α, (Serde.ser a).compact = Serde.ser a
  ser_isNull : ∀ a : α, (Serde.ser a).isNull = false

export Serde (ser de)

instance : Serde String where
  ser := .str
  de
    | .str s => some s
    | _ => none
  de_ser _ := rfl

instance : Plain String := ⟨fun _ => by simp only [ser, Value.compact], fun _ => rfl⟩

instance : Serde Bool where
  ser := .bool
  de
    | .bool b => some b
    | _ => none
  de_ser _ := rfl

instance : Plain Bool := ⟨fun _ => by simp only [ser, Value.compact], fun _ => rfl⟩

/-- A number that does not fit is refused. -/
instance : Serde Int64 where
  ser x := .num x.toInt
  de
    | .num n => if Int64.minValue.toInt ≤ n ∧ n ≤ Int64.maxValue.toInt then some (Int64.ofInt n) else none
    | _ => none
  de_ser x := by
    dsimp only
    rw [if_pos ⟨Int64.minValue_le_toInt x, Int64.toInt_le x⟩, Int64.ofInt_toInt]

instance : Plain Int64 := ⟨fun _ => by simp only [ser, Value.compact], fun _ => rfl⟩

section
variable {α : Type} [Serde α]

theorem mapM_de_ser (as : List α) : (as.map ser).mapM de = some as := by
  induction as with
  | nil => rfl
  | cons a as ih => rw [List.map_cons, List.mapM_cons, Serde.de_ser, ih]; rfl

instance : Serde (List α) where
  ser as := .arr (as.map ser)
  de
    | .arr vs => vs.mapM de
    | _ => none
  de_ser as := mapM_de_ser as

instance : Plain (List α) := ⟨fun _ => by simp only [ser, Value.compact], fun _ => rfl⟩

end

/-- A value that may be unset. -/
def opt {α : Type} [Serde α] (o : Option α) : Value := o.elim .null ser

/-! ### Reading a field -/

inductive Problem where
  | missing (field : String)
  | invalid (field : String)
  deriving DecidableEq

def get (o : Object) (name : String) : Option Value := (o.find? (·.1 == name)).map (·.2)

section
variable {α : Type} [Serde α]

def readAs (name : String) (v : Value) : Except Problem α :=
  match de v with
  | some a => .ok a
  | none => .error (.invalid name)

/-- A field that must be there. -/
def required (o : Object) (name : String) : Except Problem α :=
  match get o name with
  | none => .error (.missing name)
  | some v => readAs name v

/-- A field that may be left out or null. -/
def optional (o : Object) (name : String) : Except Problem (Option α) :=
  match get o name with
  | none | some .null => .ok none
  | some v => some <$> readAs name v

/-- A field that may be left out. -/
def withDefault (o : Object) (name : String) (fallback : α) : Except Problem α :=
  match get o name with
  | none => .ok fallback
  | some v => readAs name v

end

/-! ### What is read of what was written -/

section
variable {o : Object} {m : String × Value} {name : String}

theorem get_nil : get (compactFields []) name = none := by
  rw [compactFields]
  rfl

/-- A field of another name is passed over, sent or not. -/
theorem get_ne (h : m.1 ≠ name) : get (compactFields (m :: o)) name = get (compactFields o) name := by
  rw [compactFields]
  split
  · rfl
  · rw [compactMember, get, get, List.find?_cons, beq_false_of_ne h]

/-- A field that is sent has the value that it was given. -/
theorem get_self {v : Value} (hnull : v.isNull = false) (hcompact : v.compact = v) :
    get (compactFields ((name, v) :: o)) name = some v := by
  rw [compactFields, hnull, if_neg Bool.false_ne_true, compactMember, hcompact, get, List.find?_cons, beq_self_eq_true]
  rfl

theorem get_absent (h : name ∉ o.map (·.1)) : get (compactFields o) name = none := by
  induction o with
  | nil => exact get_nil
  | cons m o ih =>
    rw [List.map_cons, List.mem_cons, not_or] at h
    rw [get_ne (Ne.symm h.1), ih h.2]

theorem get_unset (h : name ∉ o.map (·.1)) : get (compactFields ((name, .null) :: o)) name = none := by
  rw [compactFields, if_pos (show Value.isNull .null = true from rfl), get_absent h]

variable {α : Type} [Serde α]

theorem readAs_ser (name : String) (a : α) : readAs name (ser a) = .ok a := by
  rw [readAs, Serde.de_ser]

theorem optional_of {v : Value} (h : get o name = some v) (hnull : v.isNull = false) :
    (optional o name : Except Problem (Option α)) = some <$> readAs name v := by
  rw [optional, h]
  cases v with
  | null => cases hnull
  | _ => rfl

@[simp] theorem required_ne (h : m.1 ≠ name) :
    (required (compactFields (m :: o)) name : Except Problem α) = required (compactFields o) name := by
  rw [required, required, get_ne h]

@[simp] theorem optional_ne (h : m.1 ≠ name) :
    (optional (compactFields (m :: o)) name : Except Problem (Option α)) = optional (compactFields o) name := by
  rw [optional, optional, get_ne h]

@[simp] theorem withDefault_ne (h : m.1 ≠ name) (fallback : α) :
    withDefault (compactFields (m :: o)) name fallback = withDefault (compactFields o) name fallback := by
  rw [withDefault, withDefault, get_ne h]

@[simp] theorem optional_nil : optional (compactFields []) name = .ok (none : Option α) := by
  rw [optional, get_nil]

@[simp] theorem withDefault_nil (fallback : α) : withDefault (compactFields []) name fallback = .ok fallback := by
  rw [withDefault, get_nil]

variable [Plain α]

theorem get_ser (a : α) : get (compactFields ((name, ser a) :: o)) name = some (ser a) :=
  get_self (Plain.ser_isNull a) (Plain.compact_ser a)

@[simp] theorem required_ser (a : α) : required (compactFields ((name, ser a) :: o)) name = .ok a := by
  rw [required, get_ser]
  exact readAs_ser name a

@[simp] theorem withDefault_ser (a fallback : α) :
    withDefault (compactFields ((name, ser a) :: o)) name fallback = .ok a := by
  rw [withDefault, get_ser]
  exact readAs_ser name a

@[simp] theorem optional_ser (a : α) : optional (compactFields ((name, ser a) :: o)) name = .ok (some a) := by
  rw [optional_of (get_ser a) (Plain.ser_isNull a), readAs_ser]
  rfl

@[simp] theorem withDefault_opt (h : name ∉ o.map (·.1)) (a : Option α) (fallback : α) :
    withDefault (compactFields ((name, opt a) :: o)) name fallback = .ok (a.getD fallback) := by
  cases a with
  | none => rw [withDefault, opt, Option.elim_none, get_unset h, Option.getD_none]
  | some a => exact withDefault_ser a fallback

@[simp] theorem optional_opt (h : name ∉ o.map (·.1)) (a : Option α) :
    optional (compactFields ((name, opt a) :: o)) name = .ok a := by
  cases a with
  | none => rw [optional, opt, Option.elim_none, get_unset h]
  | some a => exact optional_ser a

end
end Fields
