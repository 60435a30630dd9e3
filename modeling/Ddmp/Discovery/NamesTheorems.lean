import Ddmp.Discovery.Messages
import Ddmp.Lib.Fallible

/-!
# Reading names

`Spells` says which labels stand at an offset of a message, over any number of compression
pointers, and `Walks` where a reader gets to. `readName_of_spells` and
`readName_eq_structError_iff` say what `_read_name` makes of them.
-/

namespace Ddmp

open Lib BigEndian Fallible

/-- The labels that stand at an offset, as they are on the wire, the number of pointers followed
to read them and the offset behind the name. -/
inductive Spells (data : Bytes) : ℕ → List Bytes → ℕ → ℕ → Prop
  | root {offset : ℕ} (hzero : data[offset]? = some 0) : Spells data offset [] 0 (offset + 1)
  | label {offset jumps stop : ℕ} {length : UInt8} {raws : List Bytes}
      (hlength : data[offset]? = some length) (hpos : length ≠ 0) (hplain : length.toNat < 0xC0)
      (hrest : Spells data (offset + 1 + length.toNat) raws jumps stop) :
      Spells data offset (slice data (offset + 1) length.toNat :: raws) jumps stop
  | pointer {offset word jumps stop : ℕ} {raws : List Bytes}
      (hword : u16At data offset = some word) (hpointer : 0xC000 ≤ word)
      (hrest : Spells data (word % 0x4000) raws jumps stop) :
      Spells data offset raws (jumps + 1) (offset + 2)

/-- A reader that starts at the first offset and follows `jumps` pointers can get to the
second. -/
inductive Walks (data : Bytes) : ℕ → ℕ → ℕ → Prop
  | here (offset : ℕ) : Walks data offset 0 offset
  | label {offset jumps last : ℕ} {length : UInt8} (hlength : data[offset]? = some length)
      (hpos : length ≠ 0) (hplain : length.toNat < 0xC0)
      (hrest : Walks data (offset + 1 + length.toNat) jumps last) : Walks data offset jumps last
  | pointer {offset word jumps last : ℕ} (hword : u16At data offset = some word)
      (hpointer : 0xC000 ≤ word) (hrest : Walks data (word % 0x4000) jumps last) :
      Walks data offset (jumps + 1) last

/-- The last byte of a message, when it is the first byte of a pointer. -/
def LonePointer (data : Bytes) (offset : ℕ) : Prop :=
  ∃ high, data[offset]? = some high ∧ 0xC0 ≤ high.toNat ∧ data.length = offset + 1

/-- A label behind its length. -/
def labelBytes (raw : Bytes) : Bytes := UInt8.ofNat raw.length :: raw

/-- Labels written one after another, without pointers. -/
def wire (raws : List Bytes) : Bytes := raws.flatMap labelBytes ++ [0]

theorem wire_cons (raw : Bytes) (raws : List Bytes) :
    wire (raw :: raws) = labelBytes raw ++ wire raws := by
  rw [wire, List.flatMap_cons, List.append_assoc]
  rfl

/-! ## Parts of a message -/

section drop

variable {data xs rest : Bytes} {offset : ℕ}

theorem getElem?_of_drop {b : UInt8} (h : data.drop offset = b :: rest) :
    data[offset]? = some b := by
  rw [← List.head?_drop, h, List.head?_cons]

theorem drop_of_drop (h : data.drop offset = xs ++ rest) :
    data.drop (offset + xs.length) = rest := by
  rw [← List.drop_drop, h, List.drop_left]

theorem slice_of_drop (h : data.drop offset = xs ++ rest) : slice data offset xs.length = xs := by
  rw [slice, h, List.take_left]

end drop

/-- A label of 1 to 191 bytes before a name. -/
theorem Spells.cons {data raw rest : Bytes} {offset jumps stop : ℕ} {raws : List Bytes}
    (hraw : 0 < raw.length ∧ raw.length < 0xC0) (h : data.drop offset = labelBytes raw ++ rest)
    (hrest : Spells data (offset + (labelBytes raw).length) raws jumps stop) :
    Spells data offset (raw :: raws) jumps stop := by
  have hvalue : (UInt8.ofNat raw.length).toNat = raw.length := Utf8.toNat_ofNat (by omega)
  have hlength : data[offset]? = some (UInt8.ofNat raw.length) := getElem?_of_drop h
  have hpos : UInt8.ofNat raw.length ≠ 0 := by
    intro hzero
    rw [hzero, UInt8.toNat_zero] at hvalue
    omega
  have hslice : slice data (offset + 1) (UInt8.ofNat raw.length).toNat = raw := by
    rw [hvalue]
    exact slice_of_drop (drop_of_drop (show _ = [UInt8.ofNat raw.length] ++ _ from h))
  have hnext : offset + (labelBytes raw).length
      = offset + 1 + (UInt8.ofNat raw.length).toNat := by
    rw [hvalue, labelBytes, List.length_cons]
    omega
  rw [hnext] at hrest
  have hspells := Spells.label hlength hpos (by omega) hrest
  rwa [hslice] at hspells

/-- Labels of 1 to 191 bytes that are written out are spelt out. -/
theorem spells_of_drop {data rest : Bytes} {offset : ℕ} {raws : List Bytes}
    (hraws : ∀ raw ∈ raws, 0 < raw.length ∧ raw.length < 0xC0)
    (h : data.drop offset = wire raws ++ rest) :
    Spells data offset raws 0 (offset + (wire raws).length) := by
  induction raws generalizing offset with
  | nil => exact .root (getElem?_of_drop h)
  | cons raw raws ih =>
    rw [List.forall_mem_cons] at hraws
    rw [wire_cons, List.append_assoc] at h
    have hrest := ih hraws.2 (drop_of_drop h)
    rw [wire_cons, List.length_append, ← Nat.add_assoc]
    exact .cons hraws.1 h hrest

/-! ## One pass of the loop -/

theorem and_C0_eq_iff (b : UInt8) : b.toNat &&& 0xC0 = 0xC0 ↔ 0xC0 ≤ b.toNat := by
  have hall : ∀ n < 256, n &&& 0xC0 = 0xC0 ↔ 0xC0 ≤ n := by decide +kernel
  exact hall b.toNat b.toNat_lt

theorem and_3FFF (word : ℕ) : word &&& 0x3FFF = word % 0x4000 :=
  Nat.and_two_pow_sub_one_eq_mod word 14

namespace readName

variable {data : Bytes} {offset stop hops : ℕ} {labels : List (List Char)} {jumped : Bool}

theorem loop_root (hzero : data[offset]? = some 0) :
    loop data offset labels jumped stop hops
      = .ok (['.'].intercalate labels, if jumped then stop else offset + 1) := by
  rw [loop]
  split
  · rename_i hnone
    cases hzero.symm.trans hnone
  · rename_i length hlength
    cases hzero.symm.trans hlength
    rw [if_pos rfl]

theorem loop_label {length : UInt8} (hlength : data[offset]? = some length) (hpos : length ≠ 0)
    (hplain : length.toNat < 0xC0) :
    loop data offset labels jumped stop hops
      = loop data (offset + 1 + length.toNat)
        (labels ++ [Utf8.decodeReplace (slice data (offset + 1) length.toNat)]) jumped stop
        hops := by
  have hnot : ¬ length.toNat &&& 0xC0 = 0xC0 := by
    rw [and_C0_eq_iff]
    omega
  rw [loop]
  split
  · rename_i hnone
    cases hlength.symm.trans hnone
  · rename_i length' hlength'
    cases hlength.symm.trans hlength'
    rw [if_neg hpos, if_neg hnot]

theorem loop_pointer {word : ℕ} (hword : u16At data offset = some word) (hpointer : 0xC000 ≤ word)
    (hhops : hops < 64) :
    loop data offset labels jumped stop hops
      = loop data (word % 0x4000) labels true (if jumped then stop else offset + 2) (hops + 1) := by
  obtain ⟨high, low, hhigh, -, hvalue⟩ := u16At_eq_some_iff.mp hword
  have hlow := low.toNat_lt
  have hmask : high.toNat &&& 0xC0 = 0xC0 := (and_C0_eq_iff high).mpr (by omega)
  have hpos : high ≠ 0 := by
    rintro rfl
    rw [UInt8.toNat_zero] at hvalue
    omega
  rw [loop]
  split
  · rename_i hnone
    cases hhigh.symm.trans hnone
  · rename_i length hlength
    cases hhigh.symm.trans hlength
    rw [if_neg hpos, if_pos hmask, hword]
    dsimp only
    rw [if_neg (by omega), and_3FFF]

theorem loop_lonePointer (hlone : LonePointer data offset) :
    loop data offset labels jumped stop hops = .error .structError := by
  obtain ⟨high, hhigh, hpointer, hlast⟩ := hlone
  have hpos : high ≠ 0 := by
    rintro rfl
    rw [UInt8.toNat_zero] at hpointer
    omega
  have hnone : u16At data offset = none := u16At_eq_none_iff.mpr (by omega)
  rw [loop]
  split
  · rename_i htruncated
    cases hhigh.symm.trans htruncated
  · rename_i length hlength
    cases hhigh.symm.trans hlength
    rw [if_neg hpos, if_pos ((and_C0_eq_iff high).mpr hpointer), hnone]

/-! ## The whole loop -/

theorem loop_of_spells {raws : List Bytes} {jumps stop' : ℕ}
    (h : Spells data offset raws jumps stop') (hhops : hops + jumps ≤ 64) :
    loop data offset labels jumped stop hops
      = .ok (['.'].intercalate (labels ++ raws.map Utf8.decodeReplace),
          if jumped then stop else stop') := by
  induction h generalizing labels jumped stop hops with
  | root hzero => rw [loop_root hzero, List.map_nil, List.append_nil]
  | label hlength hpos hplain _ ih =>
    rw [loop_label hlength hpos hplain, ih hhops, List.map_cons, List.append_assoc,
      List.singleton_append]
  | pointer hword hpointer _ ih =>
    rw [loop_pointer hword hpointer (by omega), ih (by omega)]
    rfl

/-- A `struct.error` comes from half a pointer at the end of the message. -/
theorem loop_eq_structError_iff (hhops : hops ≤ 64) :
    loop data offset labels jumped stop hops = .error .structError
      ↔ ∃ jumps last, hops + jumps ≤ 64 ∧ Walks data offset jumps last ∧ LonePointer data last := by
  constructor
  · intro h
    fun_induction loop data offset labels jumped stop hops with
    | case1 => cases h
    | case2 => cases h
    | case3 offset _ _ _ hops length hlength hpos hmask hnone =>
      have hlt := (List.getElem?_eq_some_iff.mp hlength).1
      have hlast := u16At_eq_none_iff.mp hnone
      exact ⟨0, offset, hhops, .here offset, length, hlength, (and_C0_eq_iff length).mp hmask,
        by omega⟩
    | case4 => cases h
    | case5 offset _ _ _ hops length hlength _ hmask word hword hmore ih =>
      obtain ⟨jumps, last, hle, hwalks, hlone⟩ := ih (by omega) h
      obtain ⟨high, low, hhigh, -, hvalue⟩ := u16At_eq_some_iff.mp hword
      cases hlength.symm.trans hhigh
      have hpointer := (and_C0_eq_iff length).mp hmask
      rw [and_3FFF] at hwalks
      exact ⟨jumps + 1, last, by omega, .pointer hword (by omega) hwalks, hlone⟩
    | case6 offset _ _ _ hops length hlength hpos hmask _ ih =>
      obtain ⟨jumps, last, hle, hwalks, hlone⟩ := ih hhops h
      rw [and_C0_eq_iff] at hmask
      exact ⟨jumps, last, hle, .label hlength hpos (by omega) hwalks, hlone⟩
  · rintro ⟨jumps, last, hle, hwalks, hlone⟩
    induction hwalks generalizing labels jumped stop hops with
    | here => exact loop_lonePointer hlone
    | label hlength hpos hplain _ ih =>
      rw [loop_label hlength hpos hplain]
      exact ih hhops hle hlone
    | pointer hword hpointer _ ih =>
      rw [loop_pointer hword hpointer (by omega)]
      exact ih (by omega) (by omega) hlone

/-- Nothing but `ValueError` and `struct.error` is raised. -/
theorem raises_loop : Raises (fun e => e.isMalformed = true)
    (loop data offset labels jumped stop hops) := by
  fun_induction loop data offset labels jumped stop hops with
  | case1 => exact raises_error rfl
  | case2 => exact raises_ok _
  | case3 => exact raises_error rfl
  | case4 => exact raises_error rfl
  | case5 _ _ _ _ _ _ _ _ _ _ _ _ ih => exact ih
  | case6 _ _ _ _ _ _ _ _ _ _ ih => exact ih

end readName

theorem readName_of_spells {data : Bytes} {offset jumps stop : ℕ} {raws : List Bytes}
    (h : Spells data offset raws jumps stop) (hjumps : jumps ≤ 64) :
    readName data offset = .ok (['.'].intercalate (raws.map Utf8.decodeReplace), stop) := by
  rw [readName, readName.loop_of_spells h (by omega)]
  rfl

theorem readName_eq_structError_iff {data : Bytes} {offset : ℕ} :
    readName data offset = .error .structError
      ↔ ∃ jumps ≤ 64, ∃ last, Walks data offset jumps last ∧ LonePointer data last := by
  rw [readName, readName.loop_eq_structError_iff (by omega)]
  simp only [Nat.zero_add, exists_and_left]

theorem raises_readName (data : Bytes) (offset : ℕ) :
    Raises (fun e => e.isMalformed = true) (readName data offset) := readName.raises_loop

/-! ## Writing names -/

theorem encodeLabel_eq_ok_iff {label : List Char} {bytes : Bytes} : encodeLabel label = .ok bytes
    ↔ (Utf8.encode label).length ≤ 255 ∧ bytes = labelBytes (Utf8.encode label) := by
  simp only [encodeLabel, bind_eq_ok, raiseIf_eq_ok, pure_eq_ok, not_lt]
  constructor
  · rintro ⟨-, hle, rfl⟩
    exact ⟨hle, rfl⟩
  · rintro ⟨hle, rfl⟩
    exact ⟨(), hle, rfl⟩

/-- The labels that `_encode_name` writes. -/
def labelsOf (name : List Char) : List (List Char) := (stripDots name).splitOn '.'

/-- A name can be encoded if none of its labels is longer than 255 bytes. -/
theorem encodeName_eq_ok_iff {name : List Char} {bytes : Bytes} : encodeName name = .ok bytes
    ↔ (∀ label ∈ labelsOf name, (Utf8.encode label).length ≤ 255)
      ∧ bytes = wire ((labelsOf name).map Utf8.encode) := by
  simp only [encodeName, bind_eq_ok, pure_eq_ok,
    mapM_eq_ok_iff fun _ _ => encodeLabel_eq_ok_iff]
  rw [wire, List.flatMap_map]
  constructor
  · rintro ⟨_, ⟨hle, rfl⟩, rfl⟩
    exact ⟨hle, rfl⟩
  · rintro ⟨hle, rfl⟩
    exact ⟨_, ⟨hle, rfl⟩, rfl⟩

/-! ## Names that survive -/

/-- A name whose labels have 1 to 191 bytes: a longer label would be taken for a pointer, an
empty one for the end of the name. -/
def Legible (name : List Char) : Prop :=
  ∀ label ∈ name.splitOn '.', 0 < (Utf8.encode label).length ∧ (Utf8.encode label).length < 0xC0

instance (name : List Char) : Decidable (Legible name) :=
  inferInstanceAs (Decidable (∀ label ∈ name.splitOn '.', _ ∧ _))

/-- Without empty labels there are no dots at the ends. -/
theorem Legible.stripDots_eq {name : List Char} (h : Legible name) : stripDots name = name := by
  have hempty : [] ∉ name.splitOn '.' := fun hmem => Nat.lt_irrefl 0 (h [] hmem).1
  have hdrop : name.dropWhile (· == '.') = name := by
    rw [List.dropWhile_eq_self_iff]
    intro hlen hdot
    obtain ⟨c, rest, rfl⟩ := List.exists_cons_of_length_pos hlen
    rw [List.getElem_cons_zero] at hdot
    rw [List.splitOn_cons_eq_if_modifyHead, if_pos hdot] at hempty
    exact hempty List.mem_cons_self
  rw [stripDots, stripBy, hdrop, List.rdropWhile_eq_self_iff]
  intro hne hdot
  obtain ⟨init, c, rfl⟩ := (List.eq_nil_or_concat' name).resolve_left hne
  rw [List.getLast_concat] at hdot
  rw [List.splitOn_append_cons_of_beq init [] hdot] at hempty
  exact hempty (List.mem_append_right _ List.mem_cons_self)

/-- Such a name is read as it was written. -/
theorem Legible.readName_of_drop {name : List Char} (h : Legible name) {data rest : Bytes}
    {offset : ℕ} (hdata : data.drop offset = wire ((labelsOf name).map Utf8.encode) ++ rest) :
    readName data offset
      = .ok (name, offset + (wire ((labelsOf name).map Utf8.encode)).length) := by
  have hlabels : labelsOf name = name.splitOn '.' := by rw [labelsOf, h.stripDots_eq]
  have hraws : ∀ raw ∈ (labelsOf name).map Utf8.encode, 0 < raw.length ∧ raw.length < 0xC0 := by
    rw [hlabels, List.forall_mem_map]
    exact h
  have hdecode : ((labelsOf name).map Utf8.encode).map Utf8.decodeReplace = labelsOf name := by
    rw [List.map_map]
    exact List.map_id'' Utf8.decodeReplace_encode _
  rw [readName_of_spells (spells_of_drop hraws hdata) (Nat.zero_le 64), hdecode, hlabels,
    List.intercalate_splitOn]

end Ddmp
