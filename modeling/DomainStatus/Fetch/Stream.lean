import DomainStatus.Fetch.Http

/-!
# The size limit of a body

`stream_bytes_with_limit` of `src/fetch/stream.rs` decides at each chunk whether the body still
fits. Read `stream_bytes_with_limit_cap` first: what it decides is a matter of the whole body, and
not of how the body was cut into chunks.
-/

namespace DomainStatus.Fetch

/-- What is returned for a chunk that exceeds the limit. `got` is the number of bytes that had
arrived with it. -/
def exceeded (maxSize : ℕ) (onLimit : OnLimit) (body : List UInt8) (got : ℕ) :
    Except StreamBytesError StreamedBytes :=
  match onLimit with
  | .truncate => .ok (.truncated (body.take maxSize))
  | .abort => .error .limitExceeded
  | .error => .error (.tooLarge got maxSize)

section Loop

variable {maxSize : ℕ} {onLimit : OnLimit} {accumulated chunk : List UInt8}
  {chunks : List (List UInt8)} {rest : List (Option (List UInt8))}

/-- The room that is left lies within a chunk that exceeds the limit, and the body is cut off
exactly at the limit. -/
theorem append_take_room (hroom : accumulated.length ≤ maxSize)
    (hover : maxSize < accumulated.length + chunk.length) :
    maxSize - accumulated.length ≤ chunk.length ∧
      accumulated ++ chunk.take (maxSize - accumulated.length) =
        (accumulated ++ chunk).take maxSize := by
  constructor
  · omega
  · rw [List.take_append, List.take_of_length_le hroom]

/-- One chunk: it is collected if it fits. -/
theorem streamBytesWithLimit_cons (hroom : accumulated.length ≤ maxSize) :
    streamBytesWithLimit maxSize onLimit accumulated (some chunk :: rest) =
      if maxSize < (accumulated ++ chunk).length then
        exceeded maxSize onLimit (accumulated ++ chunk) (accumulated ++ chunk).length
      else streamBytesWithLimit maxSize onLimit (accumulated ++ chunk) rest := by
  rw [List.length_append]
  by_cases hover : maxSize < accumulated.length + chunk.length
  · have hcut := (append_take_room hroom hover).2
    cases onLimit with
    | truncate => simp only [streamBytesWithLimit, exceeded, if_pos hover, hcut]
    | abort => simp only [streamBytesWithLimit, exceeded, if_pos hover]
    | error => simp only [streamBytesWithLimit, exceeded, if_pos hover]
  · cases onLimit with
    | truncate => simp only [streamBytesWithLimit, if_neg hover]
    | abort => simp only [streamBytesWithLimit, if_neg hover]
    | error => simp only [streamBytesWithLimit, if_neg hover]

/-- Chunks that fit are collected, and the stream is read on behind them. -/
theorem streamBytesWithLimit_fits (h : (accumulated ++ chunks.flatten).length ≤ maxSize) :
    streamBytesWithLimit maxSize onLimit accumulated (chunks.map some ++ rest) =
      streamBytesWithLimit maxSize onLimit (accumulated ++ chunks.flatten) rest := by
  induction chunks generalizing accumulated with
  | nil => rw [List.flatten_nil, List.append_nil, List.map_nil, List.nil_append]
  | cons chunk chunks ih =>
      rw [List.flatten_cons, ← List.append_assoc] at h
      have hparts := h
      rw [List.length_append, List.length_append] at hparts
      have hchunk : ¬maxSize < (accumulated ++ chunk).length := by
        rw [List.length_append]
        omega
      rw [List.map_cons, List.cons_append, streamBytesWithLimit_cons (by omega), if_neg hchunk,
        ih h, List.flatten_cons, List.append_assoc]

/-- The first chunk that exceeds the limit ends the loop, whatever the stream holds behind it. -/
theorem streamBytesWithLimit_exceeds (hroom : accumulated.length ≤ maxSize)
    (hover : maxSize < (accumulated ++ chunks.flatten).length) :
    ∃ got, maxSize < got ∧ got ≤ (accumulated ++ chunks.flatten).length ∧
      streamBytesWithLimit maxSize onLimit accumulated (chunks.map some ++ rest) =
        exceeded maxSize onLimit (accumulated ++ chunks.flatten) got := by
  induction chunks generalizing accumulated with
  | nil =>
      rw [List.flatten_nil, List.append_nil] at hover
      omega
  | cons chunk chunks ih =>
      rw [List.flatten_cons, ← List.append_assoc] at hover ⊢
      rw [List.map_cons, List.cons_append, streamBytesWithLimit_cons hroom]
      by_cases hchunk : maxSize < (accumulated ++ chunk).length
      · rw [if_pos hchunk]
        refine ⟨(accumulated ++ chunk).length, hchunk, ?_, ?_⟩
        · simp only [List.length_append]
          omega
        · cases onLimit with
          | truncate =>
              -- what follows the chunk lies behind the limit
              simp only [exceeded, List.take_append_of_le_length hchunk.le]
          | abort => rfl
          | error => rfl
      · rw [if_neg hchunk]
        exact ih (Nat.not_lt.mp hchunk) hover

end Loop

/-- A body under a size limit. -/
structure CapSpec (maxSize : ℕ) (chunks : List (List UInt8)) : Prop where
  /-- A body is kept up to the limit, and flagged if that is not all of it. -/
  truncate : ∃ streamed,
    streamBytesWithLimit maxSize .truncate [] (chunks.map some) = .ok streamed ∧
      streamed.intoBytes = chunks.flatten.take (min chunks.flatten.length maxSize) ∧
      (streamed.isTruncated = true ↔ maxSize < chunks.flatten.length)
  /-- A body is refused if it exceeds the limit, and otherwise kept whole. -/
  refuse : ∀ onLimit, onLimit ≠ .truncate →
    ((∃ error, streamBytesWithLimit maxSize onLimit [] (chunks.map some) = .error error) ↔
      maxSize < chunks.flatten.length) ∧
    (chunks.flatten.length ≤ maxSize →
      streamBytesWithLimit maxSize onLimit [] (chunks.map some) = .ok (.complete chunks.flatten))
  /-- A read error counts if it comes before the limit is exceeded. -/
  read : ∀ onLimit rest,
    streamBytesWithLimit maxSize onLimit [] (chunks.map some ++ none :: rest) = .error .read ↔
      chunks.flatten.length ≤ maxSize

/-- A body that fits is kept whole, however it is cut into chunks. -/
theorem streamBytesWithLimit_of_le {maxSize : ℕ} {chunks : List (List UInt8)} (onLimit : OnLimit)
    (h : chunks.flatten.length ≤ maxSize) :
    streamBytesWithLimit maxSize onLimit [] (chunks.map some) = .ok (.complete chunks.flatten) := by
  calc streamBytesWithLimit maxSize onLimit [] (chunks.map some)
      = streamBytesWithLimit maxSize onLimit [] (chunks.map some ++ []) := by rw [List.append_nil]
    _ = .ok (.complete chunks.flatten) := streamBytesWithLimit_fits h

/-- A body that exceeds the limit ends the loop, read error behind it or not. -/
theorem streamBytesWithLimit_of_lt {maxSize : ℕ} {chunks : List (List UInt8)} (onLimit : OnLimit)
    (rest : List (Option (List UInt8))) (h : maxSize < chunks.flatten.length) :
    ∃ got, maxSize < got ∧ got ≤ chunks.flatten.length ∧
      streamBytesWithLimit maxSize onLimit [] (chunks.map some ++ rest) =
        exceeded maxSize onLimit chunks.flatten got := by
  have hover : maxSize < ([] ++ chunks.flatten).length := h
  exact streamBytesWithLimit_exceeds (Nat.zero_le maxSize) hover

/-- What is kept of a body does not depend on how it is cut into chunks. -/
theorem stream_bytes_with_limit_cap (maxSize : ℕ) (chunks : List (List UInt8)) :
    CapSpec maxSize chunks := by
  rcases Nat.lt_or_ge maxSize chunks.flatten.length with hover | hfits
  · have hend : ∀ onLimit, ∃ got, streamBytesWithLimit maxSize onLimit [] (chunks.map some) =
        exceeded maxSize onLimit chunks.flatten got := by
      intro onLimit
      obtain ⟨got, -, -, hresult⟩ := streamBytesWithLimit_of_lt onLimit [] hover
      rw [List.append_nil] at hresult
      exact ⟨got, hresult⟩
    refine ⟨?_, ?_, ?_⟩
    · obtain ⟨got, hresult⟩ := hend .truncate
      refine ⟨.truncated (chunks.flatten.take maxSize), hresult, ?_, iff_of_true rfl hover⟩
      rw [Nat.min_eq_right hover.le]
      rfl
    · intro onLimit hkind
      obtain ⟨got, hresult⟩ := hend onLimit
      refine ⟨iff_of_true ?_ hover, fun hfits => absurd hover (Nat.not_lt.mpr hfits)⟩
      cases onLimit with
      | truncate => exact absurd rfl hkind
      | abort => exact ⟨_, hresult⟩
      | error => exact ⟨_, hresult⟩
    · intro onLimit rest
      obtain ⟨got, -, -, hresult⟩ := streamBytesWithLimit_of_lt onLimit (none :: rest) hover
      refine iff_of_false ?_ (Nat.not_le.mpr hover)
      rw [hresult]
      cases onLimit <;> simp [exceeded]
  · have hwhole := fun onLimit => streamBytesWithLimit_of_le onLimit hfits
    have hnot : ¬maxSize < chunks.flatten.length := Nat.not_lt.mpr hfits
    refine ⟨⟨_, hwhole .truncate, ?_, iff_of_false Bool.false_ne_true hnot⟩, ?_, ?_⟩
    · rw [Nat.min_eq_left hfits, List.take_length]
      rfl
    · intro onLimit hkind
      refine ⟨iff_of_false ?_ hnot, fun _ => hwhole onLimit⟩
      intro h
      obtain ⟨error, herror⟩ := h
      rw [hwhole onLimit] at herror
      cases herror
    · intro onLimit rest
      refine iff_of_true ?_ hfits
      calc streamBytesWithLimit maxSize onLimit [] (chunks.map some ++ none :: rest)
          = streamBytesWithLimit maxSize onLimit chunks.flatten (none :: rest) :=
            streamBytesWithLimit_fits hfits
        _ = .error .read := by rw [streamBytesWithLimit.eq_def]

end DomainStatus.Fetch
