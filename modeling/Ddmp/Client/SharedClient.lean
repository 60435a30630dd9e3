import Ddmp.Client.SyncClient

/-!
# Threads that send at the same time

`SyncClient.send`, statement by statement, for any number of threads: the test of `_sock` and
`_closed` stands before the lock, and a `sendall` writes its line in as many pieces as it needs.
-/

namespace Ddmp

/-- Where a call of `send` is. In `sendall` the first `n` bytes of its line have been written. -/
inductive SendPhase
  | starting
  | checked
  | writing (line : Bytes) (n : ℕ)
  | returned
  | raised (e : PyErr)

structure SendCall where
  frame : Frame
  phase : SendPhase := .starting

/-- What has `_lock`: call `i` of `send`, or a call of `feed`, `set_frame`, `state` or `value`. -/
inductive LockHolder
  | sender (i : ℕ)
  | other

/-- A call that had the lock for its `sendall`, and what came of it. -/
structure Turn where
  call : ℕ
  frame : Frame
  outcome : SendAll

/-- A client that several threads use. `turns`, the calls whose `sendall` is over, in the order of
the lock, is not in the source. -/
structure SharedClient where
  client : SyncClient
  lock : Option LockHolder := none
  calls : List SendCall := []
  turns : List Turn := []

namespace SharedClient

/-- A thread calls `send`; call `i` tests whether there is a connection, gets the lock, writes `n`
more bytes, returns from `sendall`, or fails in it; other code takes the lock or gives it back;
`close` or the reader thread sets `_closed`. -/
inductive Act
  | call (frame : Frame)
  | check (i : ℕ)
  | acquire (i : ℕ)
  | write (i n : ℕ)
  | finish (i : ℕ)
  | fail (i : ℕ) (text : String)
  | takeLock
  | freeLock
  | setClosed

def step (s : SharedClient) : Act → Option SharedClient
  | .call frame => some { s with calls := s.calls ++ [{ frame }] }
  | .check i =>
    match s.calls[i]? with
    | some ⟨frame, .starting⟩ =>
      if s.client.connected then some { s with calls := s.calls.set i ⟨frame, .checked⟩ }
      else some { s with calls := s.calls.set i ⟨frame, .raised (.connectionClosed
        [.lit "not connected to ", .val (.str s.client.host), .lit ":",
          .val (.int s.client.port)])⟩ }
    | _ => none
  | .acquire i =>
    match s.calls[i]?, s.lock with
    | some ⟨frame, .checked⟩, none =>
      match frame.encodeLine with
      | .ok line => some { s with
          lock := some (.sender i)
          calls := s.calls.set i ⟨frame, .writing line 0⟩ }
      -- the lock is given back at once
      | .error e => some { s with calls := s.calls.set i ⟨frame, .raised e⟩ }
    | _, _ => none
  | .write i n =>
    match s.calls[i]? with
    | some ⟨frame, .writing line k⟩ =>
      if 0 < n ∧ k + n ≤ line.length then some { s with
        client := { s.client with sock := s.client.sock.map (· ++ (line.drop k).take n) }
        calls := s.calls.set i ⟨frame, .writing line (k + n)⟩ }
      else none
    | _ => none
  | .finish i =>
    match s.calls[i]? with
    | some ⟨frame, .writing line k⟩ =>
      if k = line.length then some { s with
        lock := none
        calls := s.calls.set i ⟨frame, .returned⟩
        turns := s.turns ++ [⟨i, frame, .done⟩] }
      else none
    | _ => none
  | .fail i text =>
    match s.calls[i]? with
    | some ⟨frame, .writing line k⟩ =>
      if k < line.length then some { s with
        lock := none
        calls := s.calls.set i ⟨frame, .raised (.connectionClosed [.lit text])⟩
        turns := s.turns ++ [⟨i, frame, .fails k text⟩] }
      else none
    | _ => none
  | .takeLock =>
    match s.lock with
    | none => some { s with lock := some .other }
    | _ => none
  | .freeLock =>
    match s.lock with
    | some .other => some { s with lock := none }
    | _ => none
  | .setClosed => some { s with client := { s.client with closed := true } }

/-- The bytes that have reached the peer. -/
def stream (s : SharedClient) : Bytes := s.client.sock.getD []

/-- A connection just opened. -/
def opened (host : String) : SharedClient := { client := { host, sock := some [] } }

end SharedClient

end Ddmp
