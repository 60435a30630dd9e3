import Ddmp.Discovery.Collector
import Ddmp.Discovery.NamesTheorems

/-!
# What the collector learns

A record teaches the collector one fact, or nothing. `holds_of_note` and `holds_note` say what it
knows afterwards, and the `learn_` lemmas which fact a record teaches.
-/

namespace Ddmp

open Lib BigEndian Fallible

/-- What a record can teach. -/
inductive Fact
  | ptr (inst : List Char)
  | srv (name : List Char) (port : ℕ) (target : List Char)
  | txt (name : List Char) (items : Dict (List Char) (List Char))
  | address (host : List Char) (address : String)

/-- The fact that a record teaches in a browse for `service`, if any. -/
def Record.fact? (lower : List Char → List Char) (service : List Char) (data : Bytes)
    (record : Record) : Option Fact :=
  if record.rtype = 12 ∧ lower record.name = service then
    (readName data record.offset).toOption.map fun inst => .ptr inst.1
  else if record.rtype = 33 ∧ 6 ≤ record.rdata.length then do
    let port ← u16At record.rdata 4
    let target ← (readName data (record.offset + 6)).toOption
    return .srv record.name port target.1
  else if record.rtype = 16 then some (.txt record.name (parseTxt record.rdata))
  else if record.rtype = 1 ∧ record.rdata.length = 4 then
    some (.address (lower record.name) (inetNtoa record.rdata))
  else none

/-- What a record teaches, one type of record at a time. -/
theorem Record.fact?_cases {lower : List Char → List Char} {service : List Char} {data : Bytes}
    {record : Record} {fact : Fact} (h : record.fact? lower service data = some fact) :
    (∃ inst stop, fact = .ptr inst ∧ record.rtype = 12 ∧ lower record.name = service
        ∧ readName data record.offset = .ok (inst, stop))
      ∨ (∃ port target stop, fact = .srv record.name port target ∧ record.rtype = 33
        ∧ 6 ≤ record.rdata.length ∧ u16At record.rdata 4 = some port
        ∧ readName data (record.offset + 6) = .ok (target, stop))
      ∨ (fact = .txt record.name (parseTxt record.rdata) ∧ record.rtype = 16)
      ∨ fact = .address (lower record.name) (inetNtoa record.rdata) ∧ record.rtype = 1
        ∧ record.rdata.length = 4 := by
  have hread {x : Except PyErr (List Char × ℕ)} {name : List Char × ℕ}
      (hx : x.toOption = some name) : x = .ok (name.1, name.2) := eq_ok_of_toOption hx
  unfold fact? at h
  split at h
  · rename_i hptr
    obtain ⟨inst, hinst, rfl⟩ := Option.map_eq_some_iff.mp h
    exact .inl ⟨inst.1, inst.2, rfl, hptr.1, hptr.2, hread hinst⟩
  · split at h
    · rename_i hsrv
      obtain ⟨port, hport, h⟩ := Option.bind_eq_some_iff.mp h
      obtain ⟨target, htarget, h⟩ := Option.bind_eq_some_iff.mp h
      exact .inr (.inl ⟨port, target.1, target.2, (Option.some.inj h).symm, hsrv.1, hsrv.2, hport,
        hread htarget⟩)
    · split at h
      · rename_i htxt
        exact .inr (.inr (.inl ⟨(Option.some.inj h).symm, htxt⟩))
      · split at h
        · rename_i haddress
          exact .inr (.inr (.inr ⟨(Option.some.inj h).symm, haddress⟩))
        · cases h

namespace MdnsCollector

/-- The collector after learning a fact. -/
def note (c : MdnsCollector) : Fact → MdnsCollector
  | .ptr inst => { c with instances := insert inst c.instances }
  | .srv name port target => { c with srv := c.srv.set name (port, target) }
  | .txt name items => { c with txt := c.txt.set name items }
  | .address host address =>
    { c with addresses := c.addresses.set host ((c.addresses.get? host).getD [] ++ [address]) }

/-- The collector knows a fact. -/
def Holds (c : MdnsCollector) : Fact → Prop
  | .ptr inst => inst ∈ c.instances
  | .srv name port target => c.srv.get? name = some (port, target)
  | .txt name items => c.txt.get? name = some items
  | .address host address => address ∈ (c.addresses.get? host).getD []

variable {lower : List Char → List Char} {data : Bytes} {c : MdnsCollector} {record : Record}

@[simp] theorem service_note (fact : Fact) : (c.note fact).service = c.service := by
  cases fact <;> rfl

theorem holds_note (fact : Fact) : (c.note fact).Holds fact := by
  cases fact with
  | ptr inst => exact Finset.mem_insert_self inst c.instances
  | srv name port target => exact c.srv.get?_set_self name (port, target)
  | txt name items => exact c.txt.get?_set_self name items
  | address host address =>
    show address ∈ ((c.addresses.set host _).get? host).getD []
    rw [Dict.get?_set_self]
    exact List.mem_append_right _ List.mem_cons_self

/-- Nothing is known afterwards that was not known before or has just been learned. -/
theorem holds_of_note {fact fact' : Fact} (h : (c.note fact).Holds fact') :
    fact' = fact ∨ c.Holds fact' := by
  cases fact with
  | ptr inst =>
    cases fact' with
    | ptr inst' => exact (Finset.mem_insert.mp h).imp_left (congrArg Fact.ptr)
    | srv | txt | address => exact .inr h
  | srv name port target =>
    cases fact' with
    | srv name' port' target' =>
      change (c.srv.set name (port, target)).get? name' = some (port', target') at h
      rw [Dict.get?_set] at h
      split at h
      · rename_i hname
        cases h
        exact .inl (by rw [hname])
      · exact .inr h
    | ptr | txt | address => exact .inr h
  | txt name items =>
    cases fact' with
    | txt name' items' =>
      change (c.txt.set name items).get? name' = some items' at h
      rw [Dict.get?_set] at h
      split at h
      · rename_i hname
        cases h
        exact .inl (by rw [hname])
      · exact .inr h
    | ptr | srv | address => exact .inr h
  | address host address =>
    cases fact' with
    | address host' address' =>
      change address' ∈ ((c.addresses.set host _).get? host').getD [] at h
      rw [Dict.get?_set] at h
      split at h
      · rename_i hhost
        rw [Option.getD_some, List.mem_append, List.mem_singleton] at h
        exact h.symm.imp (fun haddress => by rw [hhost, haddress]) (fun hknown => hhost ▸ hknown)
      · exact .inr h
    | ptr | srv | txt => exact .inr h

/-! ## What is known stays known -/

theorem holds_ptr_note {inst : List Char} (h : c.Holds (.ptr inst)) (fact : Fact) :
    (c.note fact).Holds (.ptr inst) := by
  cases fact with
  | ptr inst' => exact Finset.mem_insert_of_mem h
  | srv | txt | address => exact h

theorem holds_address_note {host : List Char} {address : String}
    (h : c.Holds (.address host address)) (fact : Fact) :
    (c.note fact).Holds (.address host address) := by
  cases fact with
  | address host' address' =>
    change address ∈ ((c.addresses.set host' _).get? host).getD []
    rw [Dict.get?_set]
    split
    · rename_i hhost
      exact List.mem_append_left _ (hhost ▸ h)
    · exact h
  | ptr | srv | txt => exact h

theorem isSome_srv_note {name : List Char} (h : (c.srv.get? name).isSome) (fact : Fact) :
    ((c.note fact).srv.get? name).isSome := by
  cases fact with
  | srv name' port target =>
    change ((c.srv.set name' (port, target)).get? name).isSome
    rw [Dict.get?_set]
    split
    · rfl
    · exact h
  | ptr | txt | address => exact h

theorem isSome_txt_note {name : List Char} (h : (c.txt.get? name).isSome) (fact : Fact) :
    ((c.note fact).txt.get? name).isSome := by
  cases fact with
  | txt name' items =>
    change ((c.txt.set name' items).get? name).isSome
    rw [Dict.get?_set]
    split
    · rfl
    · exact h
  | ptr | srv | address => exact h

/-! ## Looking up -/

section lookup

variable {ν : Type} {table : Dict (List Char) ν} {name : List Char} {value : ν}

theorem lookup_of_get? (h : table.get? name = some value) :
    lookup lower table name = some value := by
  rw [lookup, h]

/-- What is found stands under the name, or under one that differs in case only. -/
theorem get?_of_lookup (h : lookup lower table name = some value) :
    ∃ key, lower key = lower name ∧ table.get? key = some value := by
  unfold lookup at h
  split at h
  · rename_i hget
    cases h
    exact ⟨name, rfl, hget⟩
  · obtain ⟨entry, hfound, rfl⟩ := Option.map_eq_some_iff.mp h
    have hlower := List.find?_some hfound
    have hget := (Dict.lookup_eq_some_iff table.nodup).mpr (List.mem_of_find?_eq_some hfound)
    exact ⟨entry.1, of_decide_eq_true hlower, hget⟩

end lookup

/-! ## Records -/

theorem learn_ptr (htype : record.rtype = 12) (hname : lower record.name = c.service)
    {inst : List Char} {stop : ℕ} (hread : readName data record.offset = .ok (inst, stop)) :
    c.learn lower data record = .ok (c.note (.ptr inst)) := by
  unfold learn
  dsimp only
  rw [if_pos ⟨htype, hname⟩, hread]
  rfl

theorem learn_srv (htype : record.rtype = 33) (hlength : 6 ≤ record.rdata.length) {port : ℕ}
    (hport : u16At record.rdata 4 = some port) {target : List Char} {stop : ℕ}
    (hread : readName data (record.offset + 6) = .ok (target, stop)) :
    c.learn lower data record = .ok (c.note (.srv record.name port target)) := by
  unfold learn
  dsimp only
  rw [if_neg (by omega), if_pos ⟨htype, hlength⟩, unpackBE, hport, orRaise, ok_bind, hread]
  rfl

theorem learn_txt (htype : record.rtype = 16) :
    c.learn lower data record = .ok (c.note (.txt record.name (parseTxt record.rdata))) := by
  unfold learn
  dsimp only
  rw [if_neg (by omega), if_neg (by omega), if_pos htype]
  rfl

theorem learn_address (htype : record.rtype = 1) (hlength : record.rdata.length = 4) :
    c.learn lower data record
      = .ok (c.note (.address (lower record.name) (inetNtoa record.rdata))) := by
  unfold learn
  dsimp only
  rw [if_neg (by omega), if_neg (by omega), if_neg (by omega), if_pos ⟨htype, hlength⟩]
  rfl

theorem learn_nothing (hptr : ¬ (record.rtype = 12 ∧ lower record.name = c.service))
    (hsrv : ¬ (record.rtype = 33 ∧ 6 ≤ record.rdata.length)) (htxt : record.rtype ≠ 16)
    (haddress : ¬ (record.rtype = 1 ∧ record.rdata.length = 4)) :
    c.learn lower data record = .ok c := by
  unfold learn
  dsimp only
  rw [if_neg hptr, if_neg hsrv, if_neg htxt, if_neg haddress]
  rfl

/-- What is caught is as if there was nothing. -/
theorem eq_toOption_of_unlessValueError {α : Type} {x : Except PyErr α} {o : Option α}
    (h : unlessValueError x = .ok o) : o = x.toOption := by
  cases x with
  | ok a => exact (Except.ok.inj h).symm
  | error e =>
    rw [unlessValueError] at h
    split at h
    · exact (Except.ok.inj h).symm
    · cases h

/-- Learning from a record is noting its fact. -/
theorem learn_eq {c' : MdnsCollector} (h : c.learn lower data record = .ok c') :
    c' = (record.fact? lower c.service data).elim c c.note := by
  unfold learn at h
  dsimp only at h
  unfold Record.fact?
  split at h
  · rename_i hptr
    obtain ⟨o, hread, h⟩ := bind_eq_ok.mp h
    rw [if_pos hptr, ← eq_toOption_of_unlessValueError hread]
    cases o <;> exact (Except.ok.inj h).symm
  · rename_i hptr
    rw [if_neg hptr]
    split at h
    · rename_i hsrv
      obtain ⟨port, hport, h⟩ := bind_eq_ok.mp h
      obtain ⟨o, hread, h⟩ := bind_eq_ok.mp h
      rw [if_pos hsrv, orRaise_eq_ok.mp hport, ← eq_toOption_of_unlessValueError hread]
      cases o <;> exact (Except.ok.inj h).symm
    · rename_i hsrv
      rw [if_neg hsrv]
      split at h
      · rename_i htxt
        rw [if_pos htxt]
        exact (Except.ok.inj h).symm
      · rename_i htxt
        rw [if_neg htxt]
        split at h
        · rename_i haddress
          rw [if_pos haddress]
          exact (Except.ok.inj h).symm
        · rename_i haddress
          rw [if_neg haddress]
          exact (Except.ok.inj h).symm

/-- Whatever a record is, it teaches one fact or nothing. -/
theorem note_of_learn {c' : MdnsCollector} (h : c.learn lower data record = .ok c') :
    c' = c ∨ ∃ fact, c' = c.note fact := by
  rw [learn_eq h]
  cases record.fact? lower c.service data with
  | none => exact .inl rfl
  | some fact => exact .inr ⟨fact, rfl⟩

end MdnsCollector

end Ddmp
