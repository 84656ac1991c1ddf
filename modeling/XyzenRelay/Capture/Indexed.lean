-- SUMMARY: The Windows conversion to Annex-B on buffer offsets, with every access checked, and the chunks it returns on malformed AVCC samples.
import XyzenRelay.Capture.Annexb

/-!
# The conversion on offsets

The loops of `avcc_to_annexb` and `annexb_split` as they run, over offsets into the
buffer. `none` is a panic: an index or a slice out of range, a subtraction below
zero, or a length out of the buffer that takes an offset past a 64-bit `usize`. The
other sums are of an offset and at most 4, which fits behind any buffer. The
conversions of `Annexb`, which take lists apart, say what these loops return, and that
none of them panics.
-/

namespace XyzenRelay.Capture

open Endian

theorem beNat_four_lt {bs : Bytes} (h : bs.length = 4) : beNat bs < 2 ^ 32 := by
  have hlt := beNat_lt bs
  rw [h] at hlt
  exact hlt

namespace Indexed

/-! ## Checked operations -/

/-- `&buf[start..stop]`. -/
def slice (buf : Bytes) (start stop : Nat) : Option Bytes :=
  if start ≤ stop ∧ stop ≤ buf.length then some ((buf.drop start).take (stop - start)) else none

/-- `a + b` on `usize`. -/
def usizeAdd (a b : Nat) : Option Nat := if a + b < 2 ^ 64 then some (a + b) else none

/-- `a - b` on `usize`. -/
def usizeSub (a b : Nat) : Option Nat := if b ≤ a then some (a - b) else none

theorem slice_eq {buf : Bytes} {start stop : Nat} (hle : start ≤ stop) (hlen : stop ≤ buf.length) :
    slice buf start stop = some ((buf.drop start).take (stop - start)) :=
  if_pos ⟨hle, hlen⟩

theorem usizeSub_eq {a b : Nat} (h : b ≤ a) : usizeSub a b = some (a - b) := if_pos h

/-! ## The AVCC loop -/

/-- `u32::from_be_bytes([avcc[off], avcc[off + 1], avcc[off + 2], avcc[off + 3]])`. -/
def readLen (avcc : Bytes) (off : Nat) : Option Nat := do
  let b0 ← avcc[off]?
  let b1 ← avcc[off + 1]?
  let b2 ← avcc[off + 2]?
  let b3 ← avcc[off + 3]?
  pure (beNat [b0, b1, b2, b3])

/-- The `while` loop from the offset on. -/
def avccLoop (avcc : Bytes) (off : Nat) : Option (List Bytes) :=
  if off + 4 ≤ avcc.length then
    match readLen avcc off with
    | none => none
    | some n =>
      match usizeAdd (off + 4) n with
      | none => none
      | some stop =>
        if stop > avcc.length then some []
        else
          match slice avcc (off + 4) stop, avccLoop avcc (off + 4 + n) with
          | some nal, some out => some ((startCode ++ nal) :: out)
          | _, _ => none
  else some []
termination_by avcc.length - off

/-! ## The Annex-B scan -/

/-- What the scan finds at an offset. -/
inductive Found where
  | code4
  | code3
  | other
  deriving DecidableEq, Repr

/-- The tests of one iteration at offset `i`, in their order. -/
def look (buf : Bytes) (i : Nat) : Option Found := do
  if (← buf[i]?) == 0 then
    if (← buf[i + 1]?) == 0 then
      if i + 4 ≤ buf.length then
        if (← buf[i + 2]?) == 0 then
          if (← buf[i + 3]?) == 1 then
            return .code4
      if (← buf[i + 2]?) == 1 then
        return .code3
  return .other

/-- The `while` loop from the offset on, with what it has pushed. -/
def scanLoop (buf : Bytes) (i : Nat) (starts : List (Nat × Nat)) : Option (List (Nat × Nat)) :=
  if i + 3 ≤ buf.length then
    match look buf i with
    | none => none
    | some .code4 => scanLoop buf (i + 4) (starts ++ [(i + 4, 4)])
    | some .code3 => scanLoop buf (i + 3) (starts ++ [(i + 3, 3)])
    | some .other => scanLoop buf (i + 1) starts
  else some starts
termination_by buf.length - i

/-- One iteration of the `for` loop: the chunk it pushes, if it does not `continue`. -/
def nalAt (buf : Bytes) (starts : List (Nat × Nat)) (idx : Nat) : Option (Option Bytes) := do
  let (start, _) ← starts[idx]?
  let stop ←
    if idx + 1 < starts.length then do
      let (next, codeLen) ← starts[idx + 1]?
      usizeSub next codeLen
    else pure buf.length
  if start ≥ stop then return none
  let nal ← slice buf start stop
  return some (startCode ++ nal)

/-- The `for` loop over the indices. -/
def nals (buf : Bytes) (starts : List (Nat × Nat)) : List Nat → Option (List Bytes)
  | [] => some []
  | idx :: idxs => do
    let nal ← nalAt buf starts idx
    let out ← nals buf starts idxs
    return nal.toList ++ out

def annexbSplit (buf : Bytes) : Option (List Bytes) := do
  let starts ← scanLoop buf 0 []
  nals buf starts (List.range starts.length)

def avccToAnnexb (avcc : Bytes) : Option (List Bytes) :=
  if isAnnexb avcc then annexbSplit avcc else avccLoop avcc 0

/-! ## The scan takes the list apart -/

/-- What the scan finds, read off the bytes from the offset on. -/
def lookList : Bytes → Found
  | 0 :: 0 :: 0 :: 1 :: _ => .code4
  | 0 :: 0 :: 1 :: _ => .code3
  | _ => .other

/-- With three bytes left every access of an iteration is in range. -/
theorem look_eq {buf : Bytes} {i : Nat} (h : i + 3 ≤ buf.length) :
    look buf i = some (lookList (buf.drop i)) := by
  have hget : ∀ k, buf[i + k]? = (buf.drop i)[k]? := fun k => List.getElem?_drop.symm
  have hlen : buf.length = i + (buf.drop i).length := by
    rw [List.length_drop]
    omega
  have hget0 := hget 0
  rw [Nat.add_zero] at hget0
  simp only [look, hget0, hget, hlen]
  have hthree : 3 ≤ (buf.drop i).length := by omega
  generalize buf.drop i = l at hthree
  match l, hthree with
  | [a, b, c], _ =>
    by_cases ha : a = 0 <;> by_cases hb : b = 0 <;> by_cases hc : c = 1 <;>
      simp [lookList, ha, hb, hc]
  | a :: b :: c :: d :: rest, _ =>
    by_cases ha : a = 0 <;> by_cases hb : b = 0 <;> by_cases hc : c = 0 <;>
      by_cases hd : d = 1 <;> by_cases hc' : c = 1 <;>
        simp [lookList, ha, hb, hc, hd, hc']

theorem scanStarts_short {i : Nat} {l : Bytes} (h : l.length < 3) : scanStarts i l = [] := by
  match l, h with
  | [], _ => rfl
  | [_], _ => simp [scanStarts]
  | [_, _], _ => simp [scanStarts]

/-- The list scan by what it finds. -/
theorem scanStarts_eq (i : Nat) (l : Bytes) :
    scanStarts i l =
      match lookList l with
      | .code4 => (i + 4, 4) :: scanStarts (i + 4) (l.drop 4)
      | .code3 => (i + 3, 3) :: scanStarts (i + 3) (l.drop 3)
      | .other => scanStarts (i + 1) (l.drop 1) := by
  fun_cases lookList l with
  | case1 rest => rfl
  | case2 rest => simp [scanStarts]
  | case3 _ hcode4 hcode3 =>
    cases l with
    | nil => rfl
    | cons b rest =>
      rw [scanStarts]
      · rfl
      · rintro tail rfl rfl
        exact hcode4 tail rfl
      · rintro tail rfl rfl
        exact hcode3 tail rfl

/-- The loop on offsets pushes what the list scan finds. -/
theorem scanLoop_eq (buf : Bytes) (i : Nat) (starts : List (Nat × Nat)) :
    scanLoop buf i starts = some (starts ++ scanStarts i (buf.drop i)) := by
  induction i, starts using scanLoop.induct buf with
  | case1 i starts hlen hlook => simp [look_eq hlen] at hlook
  | case2 i starts hlen hlook ih =>
    have hfound := hlook
    rw [look_eq hlen, Option.some.injEq] at hfound
    rw [scanLoop, if_pos hlen, scanStarts_eq, hfound]
    simp only [hlook, ih, List.drop_drop, List.append_assoc, List.singleton_append]
  | case3 i starts hlen hlook ih =>
    have hfound := hlook
    rw [look_eq hlen, Option.some.injEq] at hfound
    rw [scanLoop, if_pos hlen, scanStarts_eq, hfound]
    simp only [hlook, ih, List.drop_drop, List.append_assoc, List.singleton_append]
  | case4 i starts hlen hlook ih =>
    have hfound := hlook
    rw [look_eq hlen, Option.some.injEq] at hfound
    rw [scanLoop, if_pos hlen, scanStarts_eq, hfound]
    simp only [hlook, ih, List.drop_drop]
  | case5 i starts hlen =>
    have hshort : (buf.drop i).length < 3 := by
      rw [List.length_drop]
      omega
    rw [scanLoop, if_neg hlen, scanStarts_short hshort, List.append_nil]

/-- The bounds of what is found behind a code hold with the code in front. -/
theorem bounds_behind_code {i k n : Nat} {rest : Bytes} {starts : List (Nat × Nat)}
    (hn : n = k + rest.length) (ih : ∀ p ∈ starts, p.2 ≤ p.1 ∧ p.1 ≤ i + k + rest.length) :
    ∀ p ∈ (i + k, k) :: starts, p.2 ≤ p.1 ∧ p.1 ≤ i + n := by
  refine List.forall_mem_cons.mpr ⟨?_, fun p hp => ?_⟩
  · simp only
    omega
  · have hbounds := ih p hp
    omega

/-- A start code that was found ends inside the buffer, behind its own length. -/
theorem scanStarts_bounds (i : Nat) (l : Bytes) :
    ∀ p ∈ scanStarts i l, p.2 ≤ p.1 ∧ p.1 ≤ i + l.length := by
  induction i, l using scanStarts.induct with
  | case1 i rest ih =>
    rw [scanStarts]
    exact bounds_behind_code (by simp only [List.length_cons]; omega) ih
  | case2 i rest ih =>
    have hscan : scanStarts i (0 :: 0 :: 1 :: rest) = (i + 3, 3) :: scanStarts (i + 3) rest := by
      simp [scanStarts]
    rw [hscan]
    exact bounds_behind_code (by simp only [List.length_cons]; omega) ih
  | case3 i b rest hcode4 hcode3 ih =>
    rw [scanStarts]
    · intro p hp
      have hbounds := ih p hp
      simp only [List.length_cons]
      omega
    · exact hcode4
    · exact hcode3
  | case4 i => simp [scanStarts]

/-! ## The slices -/

/-- The chunk of the body between two offsets, if it is not empty. -/
def chunk (buf : Bytes) (start stop : Nat) : Option Bytes :=
  if start ≥ stop then none else some (startCode ++ (buf.drop start).take (stop - start))

/-- Where the body in front of these start codes ends. -/
def stopBefore (buf : Bytes) : List (Nat × Nat) → Nat
  | [] => buf.length
  | (next, codeLen) :: _ => next - codeLen

theorem sliceNals_cons (buf : Bytes) (start len : Nat) (starts : List (Nat × Nat)) :
    sliceNals buf ((start, len) :: starts) =
      (chunk buf start (stopBefore buf starts)).toList ++ sliceNals buf starts := by
  have hunfold : sliceNals buf ((start, len) :: starts) =
      if start ≥ stopBefore buf starts then sliceNals buf starts
      else (startCode ++ (buf.drop start).take (stopBefore buf starts - start)) ::
        sliceNals buf starts := by
    cases starts <;> rfl
  rw [hunfold, chunk]
  by_cases hempty : start ≥ stopBefore buf starts
  · rw [if_pos hempty, if_pos hempty]
    rfl
  · rw [if_neg hempty, if_neg hempty]
    rfl

theorem stopBefore_le {buf : Bytes} {starts : List (Nat × Nat)}
    (hbounds : ∀ p ∈ starts, p.2 ≤ p.1 ∧ p.1 ≤ buf.length) :
    stopBefore buf starts ≤ buf.length := by
  cases starts with
  | nil => exact Nat.le_refl _
  | cons p starts =>
    have := hbounds p List.mem_cons_self
    simp only [stopBefore]
    omega

/-- A body that ends inside the buffer is sliced in range. -/
theorem slice_chunk {buf : Bytes} {start stop : Nat} (hstop : stop ≤ buf.length) :
    (if start ≥ stop then some none
      else (slice buf start stop).bind fun nal => some (some (startCode ++ nal))) =
      some (chunk buf start stop) := by
  unfold chunk
  split
  · rfl
  · rename_i hlt
    rw [slice_eq (by omega) hstop]
    rfl

/-- With the start codes inside the buffer, no access of an iteration is out of range. -/
theorem nalAt_eq {buf : Bytes} {starts : List (Nat × Nat)} {idx start len : Nat}
    (hbounds : ∀ p ∈ starts, p.2 ≤ p.1 ∧ p.1 ≤ buf.length)
    (hget : starts[idx]? = some (start, len)) :
    nalAt buf starts idx = some (chunk buf start (stopBefore buf (starts.drop (idx + 1)))) := by
  have hstop : stopBefore buf (starts.drop (idx + 1)) ≤ buf.length :=
    stopBefore_le fun p hp => hbounds p (List.mem_of_mem_drop hp)
  simp only [nalAt, hget, Option.bind_eq_bind, Option.bind_some, Option.pure_def]
  by_cases hlast : idx + 1 < starts.length
  · obtain ⟨⟨next, codeLen⟩, hnext⟩ : ∃ p, starts[idx + 1]? = some p :=
      ⟨_, List.getElem?_eq_getElem hlast⟩
    have hmem := hbounds _ (List.mem_of_getElem? hnext)
    have hdrop : starts.drop (idx + 1) = (next, codeLen) :: starts.drop (idx + 2) :=
      List.drop_eq_getElem?_toList_append ▸ by simp [hnext]
    rw [hdrop] at hstop ⊢
    simp only [if_pos hlast, hnext, Option.bind_some, usizeSub_eq hmem.1]
    exact slice_chunk hstop
  · rw [List.drop_eq_nil_of_le (by omega)] at hstop ⊢
    simp only [if_neg hlast]
    exact slice_chunk hstop

theorem nals_eq {buf : Bytes} {starts : List (Nat × Nat)}
    (hbounds : ∀ p ∈ starts, p.2 ≤ p.1 ∧ p.1 ≤ buf.length) {idx n : Nat}
    (hlen : idx + n = starts.length) :
    nals buf starts (List.range' idx n) = some (sliceNals buf (starts.drop idx)) := by
  induction n generalizing idx with
  | zero =>
    rw [List.drop_eq_nil_of_le (by omega)]
    rfl
  | succ n ih =>
    have hidx : idx < starts.length := by omega
    rw [List.range'_succ, nals, nalAt_eq hbounds (List.getElem?_eq_getElem hidx), ih (by omega),
      List.drop_eq_getElem_cons hidx, sliceNals_cons]
    rfl

theorem annexbSplit_eq (buf : Bytes) : annexbSplit buf = some (Capture.annexbSplit buf) := by
  have hscan := scanLoop_eq buf 0 []
  rw [List.nil_append, List.drop_zero] at hscan
  have hbounds : ∀ p ∈ scanStarts 0 buf, p.2 ≤ p.1 ∧ p.1 ≤ buf.length := by
    intro p hp
    have := scanStarts_bounds 0 buf p hp
    omega
  have hnals := nals_eq hbounds (Nat.zero_add _)
  rw [List.drop_zero] at hnals
  simp only [annexbSplit, hscan, Option.bind_eq_bind, Option.bind_some, List.range_eq_range', hnals,
    Capture.annexbSplit]

/-! ## The AVCC loop -/

theorem readLen_eq {avcc : Bytes} {off : Nat} (h : off + 4 ≤ avcc.length) :
    readLen avcc off = some (beNat ((avcc.drop off).take 4)) := by
  have hget : ∀ k, avcc[off + k]? = (avcc.drop off)[k]? := fun k => List.getElem?_drop.symm
  have hget0 := hget 0
  rw [Nat.add_zero] at hget0
  have hfour : 4 ≤ (avcc.drop off).length := by
    rw [List.length_drop]
    omega
  simp only [readLen, hget0, hget]
  generalize avcc.drop off = l at hfour
  match l, hfour with
  | a :: b :: c :: d :: rest, _ => simp

/-- The loop on offsets returns the chunks of the parse. -/
theorem avccLoop_eq {avcc : Bytes} (hsize : avcc.length < 2 ^ 63) {off fuel : Nat}
    (hfuel : (avcc.drop off).length ≤ fuel) :
    avccLoop avcc off =
      some ((fromBeBytes.parseFrom fuel (avcc.drop off)).map (startCode ++ ·)) := by
  induction fuel generalizing off with
  | zero =>
    rw [List.length_drop] at hfuel
    rw [avccLoop, if_neg (by omega)]
    rfl
  | succ fuel ih =>
    have hlen : (avcc.drop off).length = avcc.length - off := List.length_drop
    have hbody : (avcc.drop off).drop 4 = avcc.drop (off + 4) := List.drop_drop
    have hparse : fromBeBytes.parseFrom (fuel + 1) (avcc.drop off) =
        if (avcc.drop off).length < 4 then []
        else if (avcc.drop (off + 4)).length < beNat ((avcc.drop off).take 4) then []
        else (avcc.drop (off + 4)).take (beNat ((avcc.drop off).take 4)) ::
          fromBeBytes.parseFrom fuel
            ((avcc.drop (off + 4)).drop (beNat ((avcc.drop off).take 4))) := by
      rw [← hbody]
      rfl
    rw [avccLoop, hparse]
    by_cases hshort : off + 4 ≤ avcc.length
    · have hfield : ((avcc.drop off).take 4).length = 4 := List.length_take_of_le (by omega)
      have hlt := beNat_four_lt hfield
      have hbodylen : (avcc.drop (off + 4)).length = avcc.length - (off + 4) := List.length_drop
      rw [if_pos hshort, if_neg (by omega), readLen_eq hshort]
      generalize beNat ((avcc.drop off).take 4) = n at hlt ⊢
      -- the sum cannot overflow: a slice is shorter than `2 ^ 63` and a length than `2 ^ 32`
      have hadd : usizeAdd (off + 4) n = some (off + 4 + n) := if_pos (by omega)
      simp only [hadd]
      by_cases hstop : off + 4 + n > avcc.length
      · rw [if_pos hstop, if_pos (by omega)]
        rfl
      · have hrest : (avcc.drop (off + 4)).drop n = avcc.drop (off + 4 + n) := List.drop_drop
        have hsmaller : (avcc.drop (off + 4 + n)).length ≤ fuel := by
          rw [List.length_drop]
          omega
        rw [if_neg hstop, if_neg (by omega), slice_eq (by omega) (by omega), ih hsmaller, hrest,
          Nat.add_sub_cancel_left]
        rfl
    · rw [if_neg hshort, if_pos (by omega)]
      rfl

/-! ## The two conversions agree -/

/-- No access of the conversion is out of range, and it returns what the conversion on
    lists does. A slice has at most `isize::MAX` bytes. -/
theorem avccToAnnexb_eq {avcc : Bytes} (hsize : avcc.length < 2 ^ 63) :
    avccToAnnexb avcc = some (Capture.avccToAnnexb avcc) := by
  have hloop := @avccLoop_eq avcc hsize 0 _ (Nat.le_refl _)
  rw [List.drop_zero] at hloop
  unfold avccToAnnexb Capture.avccToAnnexb
  split
  · exact annexbSplit_eq avcc
  · exact hloop

end Indexed

/-! ## Malformed samples -/

theorem fromBeBytes_faithful : fromBeBytes.Faithful where
  read_lt := fun _ hfield => beNat_four_lt hfield
  write_read := by
    intro field hfield
    have hfield' : field.length = 4 := hfield
    show beBytes 4 (beNat field) = field
    rw [← hfield']
    exact beBytes_beNat field

theorem isAnnexb_iff {buf : Bytes} :
    isAnnexb buf = true ↔ [0, 0, 1] <+: buf ∨ [0, 0, 0, 1] <+: buf := by
  rw [isAnnexb, Bool.or_eq_true, List.isPrefixOf_iff_prefix, List.isPrefixOf_iff_prefix, or_comm]

/-- `u32::to_be_bytes`. -/
def be32 (n : Nat) : Bytes := beBytes 4 n

/-- No complete NAL is left: less than a length, or a length of more than is left. -/
def NoNal (rest : Bytes) : Prop :=
  rest.length < 4 ∨ (rest.drop 4).length < beNat (rest.take 4)

/-- `buf` is these NALs, each behind its length, in front of a rest without one. -/
structure Leading (buf : Bytes) (nals : List Bytes) (rest : Bytes) : Prop where
  short : ∀ nal ∈ nals, nal.length < 2 ^ 32
  bytes : buf = (nals.flatMap fun nal => be32 nal.length ++ nal) ++ rest
  stop : NoNal rest

/-- On a sample that does not begin with a start code, whatever its bytes, the
    conversion runs through and returns the complete leading NALs. There is one way to
    read the sample like this. -/
theorem leading_nals {buf : Bytes} (hsize : buf.length < 2 ^ 63)
    (hsniff : ¬ ([0, 0, 1] <+: buf ∨ [0, 0, 0, 1] <+: buf)) :
    ∃ nals rest, Indexed.avccToAnnexb buf = some (nals.map ([0, 0, 0, 1] ++ ·)) ∧
      Leading buf nals rest ∧
      ∀ nals' rest', Leading buf nals' rest' → nals' = nals ∧ rest' = rest := by
  obtain ⟨hbound, rest, hbytes, hstop⟩ := fromBeBytes.parse_exact fromBeBytes_faithful buf
  refine ⟨fromBeBytes.parse buf, rest, ?_, ⟨hbound, hbytes, hstop⟩, ?_⟩
  · have hlengths : ¬ isAnnexb buf = true := fun h => hsniff (isAnnexb_iff.mp h)
    rw [Indexed.avccToAnnexb_eq hsize, avccToAnnexb, if_neg hlengths]
    rfl
  · intro nals' rest' hother
    have hnals := fromBeBytes.parse_unique hother.short hother.stop hother.bytes
    have hsame : fromBeBytes.encode nals' ++ rest' = fromBeBytes.encode nals' ++ rest := by
      rw [hnals] at hbytes
      exact hother.bytes.symm.trans hbytes
    exact ⟨hnals.symm, List.append_cancel_left hsame⟩

/-- A NAL, an empty one, and a length of more bytes than are left. -/
theorem leading_nals_hostile :
    ∃ nals rest,
      Indexed.avccToAnnexb [0, 0, 0, 2, 0xaa, 0xbb, 0, 0, 0, 0, 0xff, 0xff, 0xff, 0xff, 1] =
        some (nals.map ([0, 0, 0, 1] ++ ·)) ∧
      Leading [0, 0, 0, 2, 0xaa, 0xbb, 0, 0, 0, 0, 0xff, 0xff, 0xff, 0xff, 1] nals rest ∧
      ∀ nals' rest', Leading [0, 0, 0, 2, 0xaa, 0xbb, 0, 0, 0, 0, 0xff, 0xff, 0xff, 0xff, 1]
        nals' rest' → nals' = nals ∧ rest' = rest :=
  leading_nals (by decide) (by decide)

end XyzenRelay.Capture
