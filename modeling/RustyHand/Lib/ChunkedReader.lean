import Mathlib.Data.List.Basic
import Mathlib.Data.Nat.Notation

/-!
# Reading from a stream that arrives in pieces

* `Arrival`, `bytes`: what arrives, and the bytes of it;
* `read`: one read, of what has arrived first, and no more than is wanted;
* `fill`: reads until so many bytes are there;
* `fill_of_onlyData`: from a stream that neither stalls nor fails the bytes are read in order, and
  no others, however the stream is cut.
-/

namespace ChunkedReader

variable {α ε : Type*}

/-- What comes next on a stream: some bytes, a pause as long as the reader waits at most, or an
error. -/
inductive Arrival (α ε : Type*)
  | data (bytes : List α)
  | stall
  | failure (e : ε)

/-- Why there is nothing to read. -/
inductive Stop (ε : Type*)
  | eof
  | elapsed
  | failed (e : ε)

/-- The bytes of an arrival. -/
def Arrival.bytes : Arrival α ε → List α
  | .data bytes => bytes
  | _ => []

/-- The bytes of a stream. -/
def bytes (stream : List (Arrival α ε)) : List α := stream.flatMap Arrival.bytes

/-- A stream that neither stalls nor fails. -/
def OnlyData (stream : List (Arrival α ε)) : Prop := ∀ a ∈ stream, ∃ chunk, a = .data chunk

/-- One read, of at most `want` bytes; no bytes stand for the end of the stream.  A reader that is
not `timed` waits for as long as it takes. -/
def read (timed : Bool) (want : ℕ) :
    List (Arrival α ε) → Except (Stop ε) (List α) × List (Arrival α ε)
  | [] => (.ok [], [])
  | .data [] :: stream => read timed want stream
  | .data (b :: chunk) :: stream =>
    (.ok ((b :: chunk).take want), .data ((b :: chunk).drop want) :: stream)
  | .stall :: stream => if timed then (.error .elapsed, stream) else read timed want stream
  | .failure e :: stream => (.error (.failed e), stream)

/-- Reads of at most `limit` bytes each, until `remaining` bytes are there. -/
def fill (timed : Bool) (limit : ℕ) (remaining : ℕ) (stream : List (Arrival α ε)) :
    Except (Stop ε) (List α) × List (Arrival α ε) :=
  if _ : remaining = 0 then (.ok [], stream)
  else
    match read timed (min remaining limit) stream with
    | (.error e, stream') => (.error e, stream')
    | (.ok [], stream') => (.error .eof, stream')
    | (.ok (b :: chunk), stream') =>
      match fill timed limit (remaining - (b :: chunk).length) stream' with
      | (.error e, stream'') => (.error e, stream'')
      | (.ok more, stream'') => (.ok (b :: chunk ++ more), stream'')
termination_by remaining
decreasing_by
  rw [List.length_cons]
  omega

variable {timed : Bool} {limit want : ℕ} {stream : List (Arrival α ε)}

@[simp] theorem bytes_nil : bytes ([] : List (Arrival α ε)) = [] := rfl

@[simp] theorem bytes_cons (a : Arrival α ε) (stream : List (Arrival α ε)) :
    bytes (a :: stream) = a.bytes ++ bytes stream := rfl

@[simp] theorem bytes_data (chunk : List α) :
    (Arrival.data chunk : Arrival α ε).bytes = chunk := rfl

theorem OnlyData.tail {a : Arrival α ε} (h : OnlyData (a :: stream)) : OnlyData stream :=
  fun b hb => h b (List.mem_cons_of_mem a hb)

theorem OnlyData.cons (h : OnlyData stream) (chunk : List α) :
    OnlyData (.data chunk :: stream) :=
  List.forall_mem_cons.2 ⟨⟨chunk, rfl⟩, h⟩

/-- A read takes some of the next bytes, if there are any. -/
theorem read_of_onlyData (hdata : OnlyData stream) (hwant : 0 < want) (hne : bytes stream ≠ []) :
    ∃ chunk stream', read timed want stream = (.ok chunk, stream') ∧ chunk ≠ [] ∧
      chunk.length ≤ want ∧ bytes stream = chunk ++ bytes stream' ∧ OnlyData stream' := by
  induction stream with
  | nil => exact absurd rfl hne
  | cons a stream ih =>
    obtain ⟨chunk, rfl⟩ := hdata a List.mem_cons_self
    cases chunk with
    | nil =>
      obtain ⟨chunk, stream', hread, hrest⟩ := ih hdata.tail hne
      exact ⟨chunk, stream', by rw [read, hread], hrest⟩
    | cons b chunk =>
      refine ⟨(b :: chunk).take want, .data ((b :: chunk).drop want) :: stream, rfl, ?_, ?_, ?_,
        hdata.tail.cons _⟩
      · obtain ⟨n, rfl⟩ := Nat.exists_eq_succ_of_ne_zero (Nat.ne_of_gt hwant)
        simp
      · rw [List.length_take]
        exact Nat.min_le_left _ _
      · rw [bytes_cons, bytes_cons, bytes_data, bytes_data, ← List.append_assoc,
          List.take_append_drop]

/-- As many bytes are read as there are to be, in order, and those behind them stay. -/
theorem fill_of_onlyData (hlimit : 0 < limit) {remaining : ℕ} (hdata : OnlyData stream)
    (hle : remaining ≤ (bytes stream).length) :
    ∃ stream', fill timed limit remaining stream = (.ok ((bytes stream).take remaining), stream') ∧
      bytes stream' = (bytes stream).drop remaining ∧ OnlyData stream' := by
  induction remaining using Nat.strongRecOn generalizing stream with
  | ind remaining ih =>
    rw [fill]
    by_cases hzero : remaining = 0
    · rw [dif_pos hzero, hzero]
      exact ⟨stream, rfl, rfl, hdata⟩
    · rw [dif_neg hzero]
      have hne : bytes stream ≠ [] := fun hnil => by
        rw [hnil, List.length_nil] at hle
        omega
      obtain ⟨chunk, stream', hread, hchunk, hwant, hbytes, hdata'⟩ :=
        @read_of_onlyData _ _ timed (min remaining limit) stream hdata (by omega) hne
      obtain ⟨b, chunk, rfl⟩ := List.exists_cons_of_ne_nil hchunk
      have hlength : (b :: chunk).length ≤ remaining := Nat.le_trans hwant (Nat.min_le_left _ _)
      have hpos : 0 < (b :: chunk).length := Nat.succ_pos _
      rw [hbytes, List.length_append] at hle
      obtain ⟨stream'', hfill, hdrop, hdata''⟩ :=
        ih (remaining - (b :: chunk).length) (by omega) hdata' (by omega)
      rw [hread]
      dsimp only
      rw [hfill]
      refine ⟨stream'', ?_, ?_, hdata''⟩
      · rw [hbytes, List.take_append, List.take_of_length_le hlength]
      · rw [hdrop, hbytes, List.drop_append, List.drop_of_length_le hlength, List.nil_append]

end ChunkedReader
