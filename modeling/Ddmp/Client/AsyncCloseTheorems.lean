import Ddmp.Client.AsyncClientTheorems

/-!
# Releasing the connection

`close` closes the writer, unless it finds the client closed already. That is also the case
when the reader task has come to the end of the stream, and then nobody closes the writer; an
error of `read` comes after asyncio has closed it. `released_iff` gives the runs in which a call of
`close` that has returned has left the writer closed.
-/

namespace Ddmp

open Lib

namespace AsyncClient

/-- If a call of `close` has returned, the writer is closed. -/
def Released (c : AsyncClient) : Prop := CloseCall.returned ∈ c.closes → c.writerClosed = true

/-- `close` is called on a client that is not closed, or whose writer is. -/
def ClosesInTime (c : AsyncClient) (act : Act) : Prop :=
  act = .close .start → c.closed = false ∨ c.writerClosed = true

/-- Every call of `close` still waits for the reader task, or the writer is closed. -/
def CloseInv (c : AsyncClient) : Prop :=
  ∀ call ∈ c.closes, call = .awaitingTask ∨ c.writerClosed = true

theorem CloseInv.released {c : AsyncClient} (h : c.CloseInv) : c.Released := by
  intro hreturned
  rcases h _ hreturned with hcall | hwriter
  · exact nomatch hcall
  · exact hwriter

variable {c c' : AsyncClient}

/-- A changed call still waits for the reader task, or the writer is closed. -/
theorem CloseInv.step (h : c.CloseInv) {act : Act} (hact : c.ClosesInTime act)
    (hstep : c.step act = some c') : c'.CloseInv := by
  cases moves_of_step hstep with
  | closesAgain hclosed =>
    have hwriter : c.writerClosed = true :=
      (hact rfl).resolve_left fun hopen => (nomatch hopen.symm.trans hclosed)
    exact fun _ _ => .inr hwriter
  | closes =>
    intro call hcall
    rcases List.mem_append.mp hcall with hcall | hcall
    · exact h call hcall
    · exact .inl (List.mem_singleton.mp hcall)
  | loses | releases => exact fun _ _ => .inr rfl
  -- whoever ends, a writer that asyncio has closed stays closed
  | ends hreader error hwriter | leaves hi houtcome hrejected hwriter =>
    exact fun call hcall => (h call hcall).imp_right hwriter
  | closeReturns hj | closeRaises hj =>
    -- the writer was closed before this call began to wait for it
    have hwriter : c.writerClosed = true :=
      (h _ (List.mem_of_getElem? hj)).resolve_left fun hcall => (nomatch hcall)
    exact fun _ _ => .inr hwriter
  | begins | reads | handles | neverRuns | sendRaises | writes | raises | withdraws | sends | waits
  | interrupts | iterates => exact h

/-- A call of `close` that finds the client closed returns without a look at the writer. -/
theorem not_released_of_late_close {act : Act} (hact : ¬ c.ClosesInTime act) :
    ∃ c', c.step act = some c' ∧ ¬ c'.Released := by
  rw [ClosesInTime, Classical.not_imp, not_or] at hact
  obtain ⟨rfl, hclosed, hwriter⟩ := hact
  rw [Bool.not_eq_false] at hclosed
  refine ⟨{ c with closes := c.closes ++ [.returned] }, ?_, fun hreleased => ?_⟩
  · exact congrArg some (by rw [close, if_pos hclosed])
  · exact hwriter (hreleased (List.mem_append_right _ List.mem_cons_self))

/-- Throughout a run, the writer is closed whenever a call of `close` has returned, exactly if
no call of `close` comes when the client is closed but its writer is not. -/
theorem released_iff (session : Session) (acts : List Act) :
    Machine.Always step Released { session } acts
      ↔ Machine.Along step ClosesInTime { session } acts :=
  Machine.always_iff_along (fun _ => CloseInv.released)
    (fun _ _ _ h hact hstep => CloseInv.step h hact hstep)
    (fun _ _ _ hact => not_released_of_late_close hact)
    fun _ hcall => absurd hcall List.not_mem_nil

/-- The peer closes the connection, and then the client does. -/
theorem not_released_after_end_of_stream :
    ∃ c, Machine.run step {} [.reader .begin, .reader (.read []), .close .start] = some c
      ∧ CloseCall.returned ∈ c.closes ∧ c.writerClosed = false :=
  ⟨_, rfl, List.mem_cons_self, rfl⟩

end AsyncClient

end Ddmp
