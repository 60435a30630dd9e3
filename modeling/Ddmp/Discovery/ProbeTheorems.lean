import Ddmp.Discovery.Probe
import Ddmp.Lib.Fallible

/-!
# Replies that break the probe

Everything that `DdmdReply.parse` does with a JSON object is fine with any value, but for the three
numbers: `int(…)` is outside of the `try`. `probeDdmd_iff` says which datagrams the probe survives.
-/

namespace Ddmp

open Lib Fallible

/-! ## Numbers -/

namespace Json

/-- `int(v or 0)` is a number: anything false, a finite number, or text that reads as an integer. -/
def Counts : Json → Prop
  | .float x => ∃ q, x = .fin q
  | .str s => s = "" ∨ (parseInt? s.toList).isSome
  | .arr items => items = []
  | .obj members => members = []
  | _ => True

/-- `null`, a boolean or a finite number. -/
def IsPlain : Json → Prop
  | .null | .bool _ | .int _ => True
  | .float x => ∃ q, x = .fin q
  | _ => False

theorem IsPlain.counts {v : Json} (h : v.IsPlain) : v.Counts := by
  cases v with
  | null | bool | int => trivial
  | float x => exact h
  | str | arr | obj => exact h.elim

/-- Every JSON value has a `str`. -/
theorem exists_text (v : Json) : ∃ s, v.toValue.text = .ok s := by
  cases v <;> exact ⟨_, rfl⟩

/-- `int(v or 0)` of a value that is false. -/
theorem toInt_of_false {v : Value} (h : v.truth = .ok false) :
    (do (← v.orElse (.int 0)).toInt) = Except.ok 0 := by
  rw [Value.orElse, h]
  rfl

/-- `int(v or 0)` of a value that is true. -/
theorem toInt_of_true {v : Value} (h : v.truth = .ok true) :
    (do (← v.orElse (.int 0)).toInt) = v.toInt := by
  rw [Value.orElse, h]
  rfl

theorem toInt_ok_iff (v : Json) :
    (∃ n, (do (← v.toValue.orElse (.int 0)).toInt) = Except.ok n) ↔ v.Counts := by
  cases v with
  | null => exact ⟨fun _ => trivial, fun _ => ⟨0, rfl⟩⟩
  | bool b => exact ⟨fun _ => trivial, fun _ => by cases b <;> exact ⟨_, rfl⟩⟩
  | int n =>
    refine ⟨fun _ => trivial, fun _ => ?_⟩
    by_cases hzero : n = 0
    · exact ⟨0, toInt_of_false (by simp [toValue, Value.truth, hzero])⟩
    · exact ⟨n, toInt_of_true (by simp [toValue, Value.truth, hzero])⟩
  | float x =>
    cases x with
    | fin q =>
      refine ⟨fun _ => ⟨q, rfl⟩, fun _ => ?_⟩
      by_cases hzero : q = 0
      · exact ⟨0, toInt_of_false (by simp [toValue, Value.truth, hzero])⟩
      · exact ⟨_, toInt_of_true (by simp [toValue, Value.truth, hzero])⟩
    | posInf | negInf | nan => exact ⟨fun ⟨_, h⟩ => (nomatch h), fun ⟨_, h⟩ => (nomatch h)⟩
  | str s =>
    by_cases hempty : s = ""
    · refine ⟨fun _ => .inl hempty, fun _ => ⟨0, toInt_of_false ?_⟩⟩
      simp [toValue, Value.truth, hempty]
    · rw [toInt_of_true (by simp [toValue, Value.truth, hempty])]
      have hcounts : (str s).Counts ↔ (parseInt? s.toList).isSome := or_iff_right hempty
      rw [hcounts, Option.isSome_iff_exists]
      exact exists_congr fun _ => orRaise_eq_ok
  | arr items =>
    cases items with
    | nil => exact ⟨fun _ => rfl, fun _ => ⟨0, rfl⟩⟩
    | cons item rest => exact ⟨fun ⟨_, h⟩ => (nomatch h), fun h => (nomatch h)⟩
  | obj members =>
    cases members with
    | nil => exact ⟨fun _ => rfl, fun _ => ⟨0, rfl⟩⟩
    | cons member rest => exact ⟨fun ⟨_, h⟩ => (nomatch h), fun h => (nomatch h)⟩

theorem number_ok_iff (members : List (String × Json)) (key : String) :
    (∃ n, number members key = .ok n) ↔ ∀ v, member? members key = some v → v.Counts := by
  rw [number, getMember]
  cases member? members key with
  | none => exact ⟨fun _ _ h => (nomatch h), fun _ => ⟨0, rfl⟩⟩
  | some v =>
    rw [Option.map_some, Option.getD_some, toInt_ok_iff]
    exact ⟨fun h v' hv => Option.some.inj hv ▸ h, fun h => h v rfl⟩

theorem exists_text_getMember (members : List (String × Json)) (key : String) :
    ∃ s, (getMember members key (.str "")).text = .ok s := by
  rw [getMember]
  cases member? members key with
  | none => exact ⟨"", rfl⟩
  | some v => exact v.exists_text

end Json

/-! ## One datagram -/

variable {lower : List Char → List Char} {loads : List Char → Option Json}

/-- The fields that `parse` converts to integers. -/
def DdmdReply.numbers : List String := ["version", "pid", "f"]

/-- The datagram is no JSON object with an id, or its numbers are numbers. -/
def Parsable (loads : List Char → Option Json) (payload : Bytes) : Prop :=
  ∀ members, loads (Utf8.decodeReplace payload) = some (.obj members) →
    (Json.member? members "id").isSome →
    ∀ key ∈ DdmdReply.numbers, ∀ v, Json.member? members key = some v → v.Counts

namespace DdmdReply

variable {payload : Bytes} {host : String} {port : ℕ}

/-- Of an object with an id, only the numbers can raise. -/
theorem parse_eq (lower : List Char → List Char) (host : String) (port : ℕ)
    {members : List (String × Json)}
    (hloads : loads (Utf8.decodeReplace payload) = some (.obj members))
    (hid : (Json.member? members "id").isSome) :
    ∃ reply : ℤ → ℤ → ℤ → DdmdReply, parse lower loads payload host port = (do
      let version ← Json.number members "version"
      let pid ← Json.number members "pid"
      let f ← Json.number members "f"
      return some (reply version pid f)) := by
  obtain ⟨id, hidText⟩ := Json.exists_text_getMember members "id"
  obtain ⟨name, hname⟩ := Json.exists_text_getMember members "name"
  obtain ⟨sku, hsku⟩ := Json.exists_text_getMember members "sku"
  have hthere : ¬ (Json.member? members "id").isNone := by
    rw [Option.isNone_iff_eq_none, ← Option.not_isSome_iff_eq_none, not_not]
    exact hid
  refine ⟨fun version pid f => ⟨normalizeId lower id.toList, name.toList, strStrip sku.toList,
    version, pid, f, host, port⟩, ?_⟩
  rw [parse, hloads]
  dsimp only
  rw [if_neg hthere, hidText, ok_bind, hname, ok_bind, hsku, ok_bind]

/-- An object with an id gives a reply, unless one of its numbers is none. -/
theorem parse_of_members (lower : List Char → List Char) (host : String) (port : ℕ)
    {members : List (String × Json)}
    (hloads : loads (Utf8.decodeReplace payload) = some (.obj members))
    (hid : (Json.member? members "id").isSome) :
    ((∃ r, parse lower loads payload host port = .ok r)
      ↔ ∀ key ∈ numbers, ∀ v, Json.member? members key = some v → v.Counts)
    ∧ ∀ r, parse lower loads payload host port = .ok r → ∃ reply, r = some reply := by
  obtain ⟨reply, hparse⟩ := parse_eq lower host port hloads hid
  simp only [hparse, numbers, List.forall_mem_cons, List.not_mem_nil, false_imp_iff, forall_const,
    and_true, ← Json.number_ok_iff, bind_eq_ok, pure_eq_ok]
  refine ⟨⟨?_, ?_⟩, ?_⟩
  · rintro ⟨_, version, hversion, pid, hpid, f, hf, -⟩
    exact ⟨⟨version, hversion⟩, ⟨pid, hpid⟩, f, hf⟩
  · rintro ⟨⟨version, hversion⟩, ⟨pid, hpid⟩, f, hf⟩
    exact ⟨_, version, hversion, pid, hpid, f, hf, rfl⟩
  · rintro r ⟨_, -, _, -, _, -, hr⟩
    exact ⟨_, hr.symm⟩

/-- What is no object with an id gives no reply, and raises nothing. -/
theorem parse_none (h : ∀ members, loads (Utf8.decodeReplace payload) = some (.obj members) →
    ¬ (Json.member? members "id").isSome) :
    parse lower loads payload host port = .ok none := by
  unfold parse
  split
  · rename_i members hloads
    have hnone := h members hloads
    rw [Option.not_isSome_iff_eq_none] at hnone
    rw [hnone]
    rfl
  · rfl

/-- `parse` raises nothing exactly on the datagrams that are parsable. -/
theorem parse_ok_iff : (∃ r, parse lower loads payload host port = .ok r)
    ↔ Parsable loads payload := by
  by_cases hobj : ∃ members, loads (Utf8.decodeReplace payload) = some (.obj members)
      ∧ (Json.member? members "id").isSome
  · obtain ⟨members, hloads, hid⟩ := hobj
    rw [(parse_of_members lower host port hloads hid).1]
    constructor
    · intro h members' hloads' _
      obtain rfl := Json.obj.inj (Option.some.inj (hloads.symm.trans hloads'))
      exact h
    · exact fun h => h members hloads hid
  · have hnone (members : List (String × Json))
        (hloads : loads (Utf8.decodeReplace payload) = some (.obj members)) :
        ¬ (Json.member? members "id").isSome := fun hid => hobj ⟨members, hloads, hid⟩
    exact ⟨fun _ members hloads hid => absurd hid (hnone members hloads),
      fun _ => ⟨none, parse_none hnone⟩⟩

end DdmdReply

/-! ## All datagrams -/

/-- A datagram that gives a reply. -/
def IsReply (lower : List Char → List Char) (loads : List Char → Option Json)
    (d : Bytes × String × ℕ) (reply : DdmdReply) : Prop :=
  DdmdReply.parse lower loads d.1 d.2.1 d.2.2 = .ok (some reply)

/-- The datagrams that the probe receives before its deadline, apart from its own: up to an error
of the socket, and with `first_only` up to the first reply. -/
def heard (lower : List Char → List Char) (loads : List Char → Option Json)
    (firstOnly : Bool) : List Received → List (Bytes × String × ℕ)
  | [] => []
  | .timeout :: rest => heard lower loads firstOnly rest
  | .osError :: _ => []
  | .datagram data host port :: rest =>
    if data = ddmdProbe then heard lower loads firstOnly rest
    else (data, host, port) ::
      match DdmdReply.parse lower loads data host port with
      | .ok (some _) => if firstOnly then [] else heard lower loads firstOnly rest
      | _ => heard lower loads firstOnly rest

/-- The loop raises when one of the datagrams is not parsable, and else has all replies. -/
theorem probeLoop_spec {firstOnly : Bool} (passes : List Received) {replies : List DdmdReply}
    (hfirst : firstOnly = true → replies = []) :
    (∀ result, probeLoop lower loads firstOnly replies passes = .ok result → ∀ reply,
      reply ∈ result ↔ reply ∈ replies
        ∨ ∃ d ∈ heard lower loads firstOnly passes, IsReply lower loads d reply)
    ∧ ((∃ result, probeLoop lower loads firstOnly replies passes = .ok result)
      ↔ ∀ d ∈ heard lower loads firstOnly passes, Parsable loads d.1) := by
  induction passes generalizing replies with
  | nil =>
    refine ⟨fun result h reply => ?_, fun _ d hd => (nomatch hd), fun _ => ⟨replies, rfl⟩⟩
    obtain rfl := Except.ok.inj h
    simp [heard]
  | cons pass rest ih =>
    cases pass with
    | timeout => exact ih hfirst
    | osError =>
      refine ⟨fun result h reply => ?_, fun _ d hd => (nomatch hd), fun _ => ⟨replies, rfl⟩⟩
      obtain rfl := Except.ok.inj h
      simp [heard]
    | datagram data host port =>
      by_cases hecho : data = ddmdProbe
      · rw [probeLoop, if_pos hecho, heard, if_pos hecho]
        exact ih hfirst
      · have hparsable : (∃ r, DdmdReply.parse lower loads data host port = .ok r)
            ↔ Parsable loads data := DdmdReply.parse_ok_iff
        rw [probeLoop, if_neg hecho, heard, if_neg hecho]
        simp only [List.exists_mem_cons_iff, List.forall_mem_cons, ← hparsable, IsReply]
        cases hparse : DdmdReply.parse lower loads data host port with
        | error e =>
          exact ⟨fun _ h => (nomatch h), fun ⟨_, h⟩ => (nomatch h), fun ⟨⟨_, h⟩, _⟩ => (nomatch h)⟩
        | ok r =>
          simp only [ok_bind, Except.ok.injEq, exists_eq', true_and]
          cases r with
          | none =>
            simp only [reduceCtorEq, false_or]
            exact ih hfirst
          | some reply =>
            simp only [Option.some.injEq]
            by_cases hknown : reply ∈ replies
            · -- a reply that is known already: `first_only` has not seen one yet
              have hall : firstOnly = false := by
                cases firstOnly with
                | false => rfl
                | true => exact absurd hknown (hfirst rfl ▸ List.not_mem_nil)
              rw [if_pos hknown, hall, if_neg Bool.false_ne_true]
              rw [hall] at ih hfirst
              obtain ⟨hresult, hok⟩ := ih hfirst
              refine ⟨fun result h reply' => ?_, hok⟩
              rw [hresult result h]
              constructor
              · exact Or.imp_right .inr
              · rintro (hmem | rfl | hlater)
                · exact .inl hmem
                · exact .inl hknown
                · exact .inr hlater
            · rw [if_neg hknown]
              cases firstOnly with
              | true =>
                rw [hfirst rfl]
                refine ⟨fun result h reply' => ?_, fun _ d hd => absurd hd List.not_mem_nil,
                  fun _ => ⟨[reply], rfl⟩⟩
                obtain rfl := Except.ok.inj h
                simp [eq_comm]
              | false =>
                obtain ⟨hresult, hok⟩ := @ih (replies ++ [reply]) nofun
                refine ⟨fun result h reply' => ?_, hok⟩
                rw [hresult result h, List.mem_append, List.mem_singleton, or_assoc,
                  eq_comm (a := reply)]
                exact Iff.rfl

/-- `parse` raises nothing exactly on a datagram that is no JSON object with an id, or whose
version, pid and f are numbers to `int`; it gives a reply when they are absent, null, booleans
or finite numbers. `probe_ddmd` returns all replies it has received exactly if it has received
none of the datagrams on which `parse` raises. -/
theorem probeDdmd_iff (lower : List Char → List Char) (loads : List Char → Option Json) :
    (∀ payload host port,
        (∃ r, DdmdReply.parse lower loads payload host port = .ok r) ↔ Parsable loads payload)
      ∧ (∀ payload host port members, loads (Utf8.decodeReplace payload) = some (.obj members) →
        (Json.member? members "id").isSome →
        (∀ key ∈ DdmdReply.numbers, ∀ v, Json.member? members key = some v → v.IsPlain) →
        ∃ reply, DdmdReply.parse lower loads payload host port = .ok (some reply))
      ∧ ∀ firstOnly passes,
        (∃ replies, probeDdmd lower loads firstOnly passes = .ok replies
            ∧ ∀ d ∈ heard lower loads firstOnly passes, ∀ reply,
              IsReply lower loads d reply → reply ∈ replies)
          ↔ ∀ d ∈ heard lower loads firstOnly passes, Parsable loads d.1 := by
  refine ⟨fun _ _ _ => DdmdReply.parse_ok_iff, ?_, fun firstOnly passes => ?_⟩
  · intro payload host port members hloads hid hplain
    obtain ⟨hok, hsome⟩ := DdmdReply.parse_of_members lower host port hloads hid
    obtain ⟨r, hr⟩ := hok.mpr fun key hkey v hv => (hplain key hkey v hv).counts
    obtain ⟨reply, rfl⟩ := hsome r hr
    exact ⟨reply, hr⟩
  · obtain ⟨hresult, hok⟩ := @probeLoop_spec lower loads firstOnly passes [] fun _ => rfl
    rw [← hok]
    constructor
    · rintro ⟨replies, hreplies, -⟩
      exact ⟨replies, hreplies⟩
    · rintro ⟨replies, hreplies⟩
      exact ⟨replies, hreplies, fun d hd reply hreply =>
        (hresult replies hreplies reply).mpr (.inr ⟨d, hd, hreply⟩)⟩

/-- The text of a reply. -/
def replyText : String := "\x7b\"id\":\"14335c34f12c\"\x7d"

/-- The text of an object whose version is an array. -/
def arrayText : String := "\x7b\"id\":1,\"version\":[2]\x7d"

/-- What `json.loads` returns for these texts. -/
def sampleLoads (text : List Char) : Option Json :=
  if text = replyText.toList then some (.obj [("id", .str "14335c34f12c")])
  else if text = arrayText.toList then
    some (.obj [("id", .int 1), ("version", .arr [.int 2])])
  else none

/-- `parse` raises `TypeError` on the second datagram, so the reply before it is lost. -/
theorem probe_broken_by_array :
    DdmdReply.parse strLower sampleLoads (bytesLit arrayText) "10.0.0.2" 13143 = .error .typeError
      ∧ (∃ reply, IsReply strLower sampleLoads (bytesLit replyText, "10.0.0.1", 13143) reply)
      ∧ probeDdmd strLower sampleLoads false
        [.datagram (bytesLit replyText) "10.0.0.1" 13143,
          .datagram (bytesLit arrayText) "10.0.0.2" 13143] = .error .typeError := by
  have hgood : sampleLoads (Utf8.decodeReplace (bytesLit replyText))
      = some (.obj [("id", .str "14335c34f12c")]) := if_pos (by decide +kernel)
  have hbad : sampleLoads (Utf8.decodeReplace (bytesLit arrayText))
      = some (.obj [("id", .int 1), ("version", .arr [.int 2])]) :=
    (if_neg (by decide +kernel)).trans (if_pos (by decide +kernel))
  have hreply : ∃ reply, DdmdReply.parse strLower sampleLoads (bytesLit replyText) "10.0.0.1" 13143
      = .ok (some reply) := by
    rw [DdmdReply.parse, hgood]
    exact ⟨_, rfl⟩
  have hraises : DdmdReply.parse strLower sampleLoads (bytesLit arrayText) "10.0.0.2" 13143
      = .error .typeError := by
    rw [DdmdReply.parse, hbad]
    rfl
  refine ⟨hraises, hreply, ?_⟩
  obtain ⟨reply, hreply⟩ := hreply
  have hechoes : bytesLit replyText ≠ ddmdProbe ∧ bytesLit arrayText ≠ ddmdProbe := by
    decide +kernel
  rw [probeDdmd, probeLoop, if_neg hechoes.1, hreply, ok_bind]
  show (if reply ∈ [] then _ else _) = _
  rw [if_neg List.not_mem_nil, if_neg Bool.false_ne_true, probeLoop, if_neg hechoes.2, hraises]
  rfl

end Ddmp
