import Mathlib.Data.List.DropRight
import Mathlib.Data.List.Basic

/-! # The readers of a provider's streams

What a provider writes is read in chunks, of any sizes. The readers of its output keep the first bytes and those
of its diagnostics the last ones (`bounded_eq`, `tail_bytes`). A tail reader also reports that bytes were lost if
one chunk fills the whole window (`tail_truncated`), and so it does for a stream that fits exactly, if it comes
in one chunk (`readers_iff`). -/

namespace ControlPlane.Provider.Readers

abbrev Byte := UInt8

/-! ### Reading -/

/-- How many bytes each read of a stream could get. -/
abbrev Delivery := ℕ → ℕ

/-- `stream.read(asked)`, the read number `i`: at least a byte, if there is one, and at most what is asked for. -/
def readChunk (d : Delivery) (i asked : ℕ) (rest : List Byte) : List Byte :=
  rest.take (max 1 (min (d i) asked))

theorem readChunk_eq_nil {d : Delivery} {i asked : ℕ} {rest : List Byte} :
    readChunk d i asked rest = [] ↔ rest = [] := by
  have hpos : max 1 (min (d i) asked) ≠ 0 := by omega
  rw [readChunk, List.take_eq_nil_iff]
  exact or_iff_right hpos

theorem readChunk_append (d : Delivery) (i asked : ℕ) (rest : List Byte) :
    readChunk d i asked rest ++ rest.drop (readChunk d i asked rest).length = rest :=
  List.prefix_iff_eq_append.mp (List.take_prefix _ rest)

theorem length_drop_readChunk {d : Delivery} {i asked : ℕ} {rest : List Byte}
    (h : readChunk d i asked rest ≠ []) :
    (rest.drop (readChunk d i asked rest).length).length < rest.length := by
  have hpos := List.length_pos_iff.mpr h
  have hrest : 0 < rest.length := List.length_pos_iff.mpr fun hnil => h (readChunk_eq_nil.mpr hnil)
  rw [List.length_drop]
  omega

/-! ### Output -/

/-- The loop of the readers of the output: the bytes, and whether there are more than the limit. -/
def boundedLoop (limit : ℕ) (d : Delivery) (i : ℕ) (rest output : List Byte) : List Byte × Bool :=
  let remaining := limit - output.length
  let chunk := readChunk d i (min 65536 (max 1 (remaining + 1))) rest
  if _h : chunk = [] then (output, false)
  else if remaining < chunk.length then (output ++ chunk.take remaining, true)
  else boundedLoop limit d (i + 1) (rest.drop chunk.length) (output ++ chunk)
termination_by rest.length
decreasing_by exact length_drop_readChunk (by assumption)

def boundedReader (limit : ℕ) (d : Delivery) (stream : List Byte) : List Byte × Bool :=
  boundedLoop limit d 0 stream []

def boundedAsyncReader (limit : ℕ) (d : Delivery) (stream : List Byte) : List Byte × Bool :=
  boundedLoop limit d 0 stream []

/-- **The first bytes**, and whether there are more. -/
theorem bounded_eq {limit : ℕ} {d : Delivery} {i : ℕ} {rest output : List Byte}
    (h : output.length ≤ limit) : boundedLoop limit d i rest output =
      ((output ++ rest).take limit, decide (limit < (output ++ rest).length)) := by
  induction hn : rest.length using Nat.strong_induction_on generalizing i rest output with
  | _ n ih =>
    subst hn
    rw [boundedLoop]
    split_ifs with hnil hlong
    · rw [readChunk_eq_nil] at hnil
      rw [hnil, List.append_nil, List.take_of_length_le h, decide_eq_false (by omega)]
    · have happend := readChunk_append d i (min 65536 (max 1 (limit - output.length + 1))) rest
      set chunk := readChunk d i (min 65536 (max 1 (limit - output.length + 1))) rest
      have hlength := congrArg List.length happend
      rw [List.length_append] at hlength
      have hover : limit < (output ++ rest).length := by
        rw [List.length_append]
        omega
      have htake : rest.take (limit - output.length) = chunk.take (limit - output.length) := by
        rw [← happend, List.take_append_of_le_length (by omega)]
      rw [List.take_append, List.take_of_length_le h, htake, decide_eq_true hover]
    · have happend := readChunk_append d i (min 65536 (max 1 (limit - output.length + 1))) rest
      have hshorter := length_drop_readChunk hnil
      set chunk := readChunk d i (min 65536 (max 1 (limit - output.length + 1))) rest
      have hfits : (output ++ chunk).length ≤ limit := by
        rw [List.length_append]
        omega
      rw [ih _ hshorter hfits rfl, List.append_assoc, happend]

/-! ### Diagnostics -/

/-- The loop of the readers of the diagnostics: the bytes, and whether some were lost. -/
def tailLoop (limit : ℕ) (d : Delivery) (i : ℕ) (rest output : List Byte) (truncated : Bool) :
    List Byte × Bool :=
  let chunk := readChunk d i 65536 rest
  if _h : chunk = [] then (output, truncated)
  else if limit ≤ chunk.length then
    tailLoop limit d (i + 1) (rest.drop chunk.length) (chunk.rtake limit) true
  else if limit < output.length + chunk.length then
    tailLoop limit d (i + 1) (rest.drop chunk.length)
      (output.drop (output.length + chunk.length - limit) ++ chunk) true
  else tailLoop limit d (i + 1) (rest.drop chunk.length) (output ++ chunk) truncated
termination_by rest.length
decreasing_by all_goals exact length_drop_readChunk (by assumption)

def boundedTailReader (limit : ℕ) (d : Delivery) (stream : List Byte) : List Byte × Bool :=
  tailLoop limit d 0 stream [] false

def boundedAsyncTailReader (limit : ℕ) (d : Delivery) (stream : List Byte) : List Byte × Bool :=
  tailLoop limit d 0 stream [] false

theorem rtake_nil (limit : ℕ) : ([] : List Byte).rtake limit = [] := List.drop_nil

theorem length_rtake (limit : ℕ) (seen : List Byte) : (seen.rtake limit).length = min limit seen.length := by
  rw [List.rtake, List.length_drop]
  omega

/-- The last bytes of a window and a short chunk. -/
theorem rtake_append {limit : ℕ} (seen : List Byte) {chunk : List Byte} (h : chunk.length ≤ limit) :
    (seen ++ chunk).rtake limit =
      (seen.rtake limit).drop ((seen.rtake limit).length + chunk.length - limit) ++ chunk := by
  have hdrop : seen.length - limit + (min limit seen.length + chunk.length - limit) =
      (seen ++ chunk).length - limit := by
    rw [List.length_append]
    omega
  rw [length_rtake, List.rtake, List.rtake, List.drop_drop, hdrop, List.drop_append_of_le_length]
  rw [List.length_append]
  omega

/-- **One chunk**: the window moves, and bytes are lost if the chunk fills it or does not fit beside it. -/
theorem tailLoop_step {limit : ℕ} {d : Delivery} {i : ℕ} {rest seen : List Byte} {truncated : Bool}
    (h : rest ≠ []) : tailLoop limit d i rest (seen.rtake limit) truncated =
      tailLoop limit d (i + 1) (rest.drop (readChunk d i 65536 rest).length)
        ((seen ++ readChunk d i 65536 rest).rtake limit)
        (truncated || decide (limit ≤ (readChunk d i 65536 rest).length ∨
          limit < min limit seen.length + (readChunk d i 65536 rest).length)) := by
  have hchunk : readChunk d i 65536 rest ≠ [] := fun hnil => h (readChunk_eq_nil.mp hnil)
  conv_lhs => rw [tailLoop]
  rw [dif_neg hchunk, length_rtake]
  set chunk := readChunk d i 65536 rest
  split_ifs with hlong hover
  · have hwindow : chunk.rtake limit = (seen ++ chunk).rtake limit := by
      have hdrop : (seen ++ chunk).length - limit = seen.length + (chunk.length - limit) := by
        rw [List.length_append]
        omega
      rw [List.rtake, List.rtake, hdrop, List.drop_length_add_append]
    rw [hwindow, decide_eq_true (Or.inl hlong), Bool.or_true]
  · have hwindow := rtake_append seen (show chunk.length ≤ limit by omega)
    rw [length_rtake] at hwindow
    rw [hwindow, decide_eq_true (Or.inr hover), Bool.or_true]
  · have hwindow : seen.rtake limit ++ chunk = (seen ++ chunk).rtake limit := by
      rw [rtake_append seen (by omega), length_rtake, Nat.sub_eq_zero_of_le (by omega), List.drop_zero]
    rw [hwindow, decide_eq_false (by omega), Bool.or_false]

/-- **The last bytes.** -/
theorem tail_bytes (limit : ℕ) (d : Delivery) (i : ℕ) (rest seen : List Byte) (truncated : Bool) :
    (tailLoop limit d i rest (seen.rtake limit) truncated).1 = (seen ++ rest).rtake limit := by
  induction hn : rest.length using Nat.strong_induction_on generalizing i rest seen truncated with
  | _ n ih =>
    subst hn
    by_cases hnil : rest = []
    · rw [tailLoop, dif_pos (readChunk_eq_nil.mpr hnil), hnil, List.append_nil]
    · have hchunk : readChunk d i 65536 rest ≠ [] := fun h => hnil (readChunk_eq_nil.mp h)
      rw [tailLoop_step hnil, ih _ (length_drop_readChunk hchunk) _ _ _ _ rfl, List.append_assoc, readChunk_append]

/-- **Bytes are lost**, once something was read, if and only if there are more than the limit. -/
theorem tail_lost {limit : ℕ} {d : Delivery} {i : ℕ} {rest seen : List Byte} {truncated : Bool}
    (hseen : seen ≠ []) (h : limit < seen.length → truncated = true) :
    (tailLoop limit d i rest (seen.rtake limit) truncated).2 =
      (truncated || decide (limit < (seen ++ rest).length)) := by
  induction hn : rest.length using Nat.strong_induction_on generalizing i rest seen truncated with
  | _ n ih =>
    subst hn
    by_cases hnil : rest = []
    · rw [tailLoop, dif_pos (readChunk_eq_nil.mpr hnil), hnil, List.append_nil]
      by_cases hlt : limit < seen.length
      · rw [h hlt]
        rfl
      · rw [decide_eq_false hlt, Bool.or_false]
    · have hchunk : readChunk d i 65536 rest ≠ [] := fun h => hnil (readChunk_eq_nil.mp h)
      have happend := readChunk_append d i 65536 rest
      have hshorter := length_drop_readChunk hchunk
      rw [tailLoop_step hnil]
      set chunk := readChunk d i 65536 rest
      have hpos := List.length_pos_iff.mpr hseen
      -- the chunk makes bytes be lost if and only if there are too many with it
      have hlost : (limit ≤ chunk.length ∨ limit < min limit seen.length + chunk.length) ↔
          limit < seen.length + chunk.length := by
        have := List.length_pos_iff.mpr hchunk
        omega
      rw [decide_eq_decide.mpr hlost, ih _ hshorter (List.append_ne_nil_of_left_ne_nil hseen _) ?_ rfl,
        List.append_assoc, happend, Bool.or_assoc]
      · have hmore : limit < seen.length + chunk.length → limit < (seen ++ rest).length := by
          rw [← happend, List.length_append, List.length_append]
          omega
        by_cases hlt : limit < seen.length + chunk.length
        · rw [decide_eq_true (hmore hlt), Bool.or_true]
        · rw [decide_eq_false hlt, Bool.false_or]
      · intro hlt
        rw [List.length_append] at hlt
        rw [decide_eq_true hlt, Bool.or_true]

/-- The whole stream comes in one chunk. -/
def InOneChunk (d : Delivery) (stream : List Byte) : Prop := readChunk d 0 65536 stream = stream

/-- **What a tail reader reports**: that bytes were lost, also when one chunk fills the window exactly. -/
theorem tail_truncated {limit : ℕ} (hlimit : 0 < limit) (d : Delivery) (stream : List Byte) :
    (tailLoop limit d 0 stream [] false).2 = true ↔
      limit < stream.length ∨ stream.length = limit ∧ InOneChunk d stream := by
  by_cases hnil : stream = []
  · rw [tailLoop, dif_pos (readChunk_eq_nil.mpr hnil), hnil]
    simp only [List.length_nil, Bool.false_eq_true, false_iff]
    omega
  · have hchunk : readChunk d 0 65536 stream ≠ [] := fun h => hnil (readChunk_eq_nil.mp h)
    have happend := readChunk_append d 0 65536 stream
    rw [← rtake_nil limit, tailLoop_step hnil, List.nil_append]
    unfold InOneChunk
    set chunk := readChunk d 0 65536 stream
    rw [tail_lost hchunk fun hlt => ?_, happend]
    · have hle : chunk.length ≤ stream.length := by
        rw [← happend, List.length_append]
        omega
      have hwhole : chunk = stream ↔ chunk.length = stream.length := by
        constructor
        · exact congrArg List.length
        · intro heq
          rw [heq, List.drop_length, List.append_nil] at happend
          exact happend
      rw [hwhole]
      simp only [List.length_nil, Bool.or_eq_true, decide_eq_true_eq, Bool.false_eq_true, false_or]
      omega
    · rw [decide_eq_true (Or.inl (le_of_lt hlt)), Bool.or_true]

/-! ### All four readers -/

/-- The readers are exact on a stream, however it comes to each of them. -/
structure Exact (limit : ℕ) (stream : List Byte) (d1 d2 d3 d4 : Delivery) : Prop where
  output : boundedReader limit d1 stream = (stream.take limit, decide (limit < stream.length))
  outputAsync : boundedAsyncReader limit d2 stream = (stream.take limit, decide (limit < stream.length))
  tail : boundedTailReader limit d3 stream = (stream.rtake limit, decide (limit < stream.length))
  tailAsync : boundedAsyncTailReader limit d4 stream = (stream.rtake limit, decide (limit < stream.length))

theorem tail_eq_iff {limit : ℕ} (hlimit : 0 < limit) (d : Delivery) (stream : List Byte) :
    tailLoop limit d 0 stream [] false = (stream.rtake limit, decide (limit < stream.length)) ↔
      ¬ (stream.length = limit ∧ InOneChunk d stream) := by
  have hbytes := tail_bytes limit d 0 stream [] false
  rw [rtake_nil, List.nil_append] at hbytes
  have hreport := tail_truncated hlimit d stream
  rw [Prod.ext_iff, hbytes, Bool.eq_iff_iff, hreport, decide_eq_true_eq]
  constructor
  · rintro ⟨-, h⟩ ⟨hlength, hone⟩
    have := h.mp (Or.inr ⟨hlength, hone⟩)
    omega
  · intro h
    exact ⟨rfl, fun hor => hor.resolve_right h, Or.inl⟩

/-- **The readers are exact** if and only if the stream does not fill the window in one chunk. -/
theorem readers_iff {limit : ℕ} (hlimit : 0 < limit) (stream : List Byte) (d1 d2 d3 d4 : Delivery) :
    Exact limit stream d1 d2 d3 d4 ↔
      ¬ (stream.length = limit ∧ (InOneChunk d3 stream ∨ InOneChunk d4 stream)) := by
  have hbounded : ∀ d, boundedLoop limit d 0 stream [] = (stream.take limit, decide (limit < stream.length)) :=
    fun d => bounded_eq (Nat.zero_le limit)
  constructor
  · rintro ⟨-, -, htail, htailAsync⟩ ⟨hlength, hone | hone⟩
    · exact (tail_eq_iff hlimit d3 stream).mp htail ⟨hlength, hone⟩
    · exact (tail_eq_iff hlimit d4 stream).mp htailAsync ⟨hlength, hone⟩
  · intro h
    refine ⟨hbounded d1, hbounded d2, (tail_eq_iff hlimit d3 stream).mpr ?_,
      (tail_eq_iff hlimit d4 stream).mpr ?_⟩
    · exact fun hone => h ⟨hone.1, Or.inl hone.2⟩
    · exact fun hone => h ⟨hone.1, Or.inr hone.2⟩

/-- Three bytes in a window of four, in chunks of two. -/
theorem readers_iff_short : Exact 4 [97, 98, 99] (fun _ => 2) (fun _ => 2) (fun _ => 2) (fun _ => 2) :=
  (readers_iff (by decide) [97, 98, 99] (fun _ => 2) (fun _ => 2) (fun _ => 2) (fun _ => 2)).mpr
    fun h => absurd h.1 (by decide)

/-- Three bytes in a window of three, in one chunk: none is lost, and it is reported that some are. -/
theorem full_window_truncated : ¬ ∀ (limit : ℕ) (stream : List Byte) (d1 d2 d3 d4 : Delivery), 0 < limit →
    Exact limit stream d1 d2 d3 d4 := by
  intro hall
  have hexact := hall 3 [97, 98, 99] (fun _ => 3) (fun _ => 3) (fun _ => 3) (fun _ => 3) (by decide)
  have hreport := (tail_truncated (show 0 < 3 by decide) (fun _ => 3) [97, 98, 99]).mpr
    (Or.inr ⟨rfl, rfl⟩)
  have htail := congrArg Prod.snd hexact.tail
  rw [boundedTailReader, hreport] at htail
  cases htail

end ControlPlane.Provider.Readers
