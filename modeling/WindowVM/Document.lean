/-
# Documents

Instructions and configurations as structured documents: numbers, texts, lists and
records of named fields.

A configuration is a record, where a missing field takes its default and other fields
are ignored, or a list of its fields in order, where the last ones may be missing.  An
instruction without operands is its long name; any other is a record of one field, the
long name, with a record of the operands.
-/

import WindowVM.Config

namespace WindowVM

/-- A structured value. -/
inductive Document where
  | null
  | bool (b : Bool)
  | integer (n : Int)
  /-- A number that is not written as an integer. -/
  | fraction
  | text (s : String)
  | list (items : List Document)
  | record (fields : List (String × Document))
  deriving Inhabited

namespace Document

/-- The field of a record with a given name. -/
def field? (fields : List (String × Document)) (name : String) : Option Document :=
  fields.lookup name

/-- The word that a document holds. -/
def toWord? : Document → Option Word
  | integer (.ofNat n) => if n < 1 <<< 64 then some (UInt64.ofNat n) else none
  | _ => none

/-- The word that a document holds, or the absence of one. -/
def toLimit? : Document → Option (Option Word)
  | null => some none
  | d => d.toWord?.map some

/-- The document of a word. -/
def ofWord (w : Word) : Document := integer w.toNat

@[simp] theorem toWord?_ofWord (w : Word) : (ofWord w).toWord? = some w := by
  rw [ofWord, ← Int.ofNat_eq_natCast, toWord?,
    if_pos (show w.toNat < 1 <<< 64 from w.toNat_lt), UInt64.ofNat_toNat]

/-- The word in a field of a record. -/
def wordField? (fields : List (String × Document)) (name : String) : Option Word :=
  (field? fields name).bind toWord?

/-- Each field of a record is found under its name. -/
theorem field?_zip {names : List String} {ds : List Document} {name : String} {d : Document}
    (hnames : names.Nodup) (h : (name, d) ∈ names.zip ds) :
    field? (names.zip ds) name = some d := by
  induction names generalizing ds with
  | nil => simp at h
  | cons first names ih =>
    cases ds with
    | nil => simp at h
    | cons e ds =>
      obtain ⟨hfirst, hnames⟩ := List.nodup_cons.1 hnames
      rw [List.zip_cons_cons] at h ⊢
      rw [field?, List.lookup_cons]
      rcases List.mem_cons.1 h with heq | hmem
      · obtain ⟨rfl, rfl⟩ := Prod.mk.injEq .. ▸ heq
        simp
      · have hne : name ≠ first := fun heq => hfirst (heq ▸ (List.of_mem_zip hmem).1)
        rw [beq_eq_false_iff_ne.2 hne]
        exact ih hnames hmem

theorem mapM_wordField? {names : List String} {ws : List Word}
    {fields : List (String × Document)} (hlen : names.length = ws.length)
    (h : ∀ p ∈ names.zip ws, wordField? fields p.1 = some p.2) :
    names.mapM (wordField? fields) = some ws := by
  induction names generalizing ws with
  | nil =>
    obtain rfl := List.length_eq_zero_iff.1 hlen.symm
    rfl
  | cons name names ih =>
    cases ws with
    | nil => simp at hlen
    | cons w ws =>
      have hrest := ih (by simpa using hlen) fun p hp => h p (List.mem_cons_of_mem _ hp)
      rw [List.mapM_cons, h (name, w) List.mem_cons_self, hrest]
      rfl

/-- A record of words gives its words back. -/
theorem mapM_wordField?_zip {names : List String} {ws : List Word} (hnames : names.Nodup)
    (hlen : names.length = ws.length) :
    names.mapM (wordField? (names.zip (ws.map ofWord))) = some ws := by
  refine mapM_wordField? hlen fun p hp => ?_
  have hmem : (p.1, ofWord p.2) ∈ names.zip (ws.map ofWord) := by
    rw [List.zip_map_right]
    exact List.mem_map.2 ⟨p, hp, rfl⟩
  rw [wordField?, field?_zip hnames hmem]
  exact toWord?_ofWord p.2

end Document

namespace Config

/-- The configuration whose fields are given, `none` for those that are missing. -/
def ofFields? (initialRegisters growthIncrement maxRegisters maxFrames : Option Document) :
    Option Config := do
  let given : Config := {}
  let initialRegisters ← initialRegisters.elim (some given.initialRegisters) (·.toWord?)
  let growthIncrement ← growthIncrement.elim (some given.growthIncrement) (·.toWord?)
  let maxRegisters ← maxRegisters.elim (some given.maxRegisters) (·.toLimit?)
  let maxFrames ← maxFrames.elim (some given.maxFrames) (·.toLimit?)
  return { initialRegisters, growthIncrement, maxRegisters, maxFrames }

/-- The configuration that a document describes. -/
def ofDocument? : Document → Option Config
  | .record fields =>
    ofFields? (Document.field? fields "initial_registers")
      (Document.field? fields "growth_increment") (Document.field? fields "max_registers")
      (Document.field? fields "max_frames")
  | .list items =>
    if items.length ≤ 4 then ofFields? items[0]? items[1]? items[2]? items[3]? else none
  | _ => none

end Config

namespace Instruction

/-- The document of an instruction. -/
def toDocument (i : Instruction) : Document :=
  if i.operands.isEmpty then .text i.opcode.name
  else
    .record [(i.opcode.name, .record (i.opcode.operandNames.zip (i.operands.map .ofWord)))]

/-- The instruction with a given opcode whose operands are the fields of a record. -/
def ofFields? (op : Opcode) (fields : List (String × Document)) : Option Instruction :=
  (op.operandNames.mapM (Document.wordField? fields)).bind (ofOperands? op)

/-- The instruction that a document describes.  An opcode without operands may also be
the field of a record that holds nothing. -/
def ofDocument? : Document → Option Instruction
  | .text name => (Opcode.ofName? name).bind fun op => ofOperands? op []
  | .record [(name, .null)] => (Opcode.ofName? name).bind fun op => ofOperands? op []
  | .record [(name, .record fields)] =>
    (Opcode.ofName? name).bind fun op =>
      if op.operandNames.isEmpty then none else ofFields? op fields
  | _ => none

/-- An instruction is read back from its document. -/
theorem ofDocument?_toDocument (i : Instruction) : ofDocument? i.toDocument = some i := by
  have hoperands : ofOperands? i.opcode i.operands = some i :=
    ofOperands?_eq_some_iff.2 ⟨rfl, rfl⟩
  rw [toDocument]
  split
  · rename_i hempty
    rw [List.isEmpty_iff.1 hempty] at hoperands
    rw [ofDocument?, Opcode.ofName?_name]
    exact hoperands
  · rename_i hempty
    have hnames : ¬ i.opcode.operandNames.isEmpty := by
      rw [List.isEmpty_iff_length_eq_zero, ← length_operands, ← List.isEmpty_iff_length_eq_zero]
      exact hempty
    rw [ofDocument?, Opcode.ofName?_name, Option.bind_some, if_neg hnames, ofFields?,
      Document.mapM_wordField?_zip i.opcode.nodup_operandNames (length_operands i).symm]
    exact hoperands

end Instruction
end WindowVM
