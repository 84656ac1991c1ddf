-- SUMMARY: Every Annex-B buffer is in one way a list of start codes with bodies; the conversion returns the bodies, and reproduces its own output.
import XyzenRelay.Capture.Indexed

/-!
# Annex-B segments

A buffer that begins with a start code is a list of segments, each a start code and a
body. The scan finds them from the front: it prefers the 4-byte code, so a body that
ends in a zero is never in front of a 3-byte code. `Canonical` says what is left of
that, and it determines the segments: a buffer put together from canonical segments
is split into the same segments (`annexbSplit_bytes`).
-/

namespace XyzenRelay.Capture

inductive StartCode where
  | three
  | four
  deriving DecidableEq, Repr

namespace StartCode

def bytes : StartCode → Bytes
  | .three => [0, 0, 1]
  | .four => [0, 0, 0, 1]

def len : StartCode → Nat
  | .three => 3
  | .four => 4

@[simp] theorem length_bytes (c : StartCode) : c.bytes.length = c.len := by
  cases c <;> rfl

end StartCode

/-- A start code and the body behind it. -/
structure Segment where
  code : StartCode
  body : Bytes
  deriving DecidableEq, Repr

def Segment.bytes (s : Segment) : Bytes := s.code.bytes ++ s.body

/-- The segments one behind the other. -/
def join (segs : List Segment) : Bytes := segs.flatMap Segment.bytes

theorem join_cons (s : Segment) (segs : List Segment) :
    join (s :: segs) = s.code.bytes ++ (s.body ++ join segs) := by
  simp [join, Segment.bytes]

/-- A body that is followed by these segments: no start code begins in it. -/
structure Clean (body : Bytes) (segs : List Segment) : Prop where
  inner : ¬ [0, 0, 1] <:+: body
  border : ∀ s, segs.head? = some s → s.code = .three → ¬ [0] <:+ body

/-- Every body is clean of what follows it. -/
def Canonical : List Segment → Prop
  | [] => True
  | s :: segs => Clean s.body segs ∧ Canonical segs

/-- What a buffer of segments begins with. -/
theorem join_cases (segs : List Segment) :
    join segs = [] ∨ (∃ rest, join segs = 0 :: 0 :: 0 :: 1 :: rest) ∨
      (∃ s rest, segs.head? = some s ∧ s.code = .three ∧ join segs = 0 :: 0 :: 1 :: rest) := by
  cases segs with
  | nil => exact .inl rfl
  | cons s segs =>
    rw [join_cons]
    match hcode : s.code with
    | .four => exact .inr (.inl ⟨_, rfl⟩)
    | .three => exact .inr (.inr ⟨s, _, rfl, hcode, rfl⟩)

namespace Clean

variable {b : UInt8} {body : Bytes} {segs : List Segment}

theorem nil (segs : List Segment) : Clean [] segs where
  inner := by simp
  border := fun _ _ _ => by simp

theorem tail (h : Clean (b :: body) segs) : Clean body segs where
  inner := fun hin => h.inner (hin.trans (List.suffix_cons b body).isInfix)
  border := fun s hs hcode hsuf => h.border s hs hcode (hsuf.trans (List.suffix_cons b body))

/-- No 3-byte code begins at a byte of a clean body. -/
theorem not_code3 (h : Clean (b :: body) segs) : ¬ [0, 0, 1] <+: b :: (body ++ join segs) := by
  have hinner : ∀ rest, b :: body ≠ 0 :: 0 :: 1 :: rest :=
    fun rest heq => h.inner ⟨[], rest, heq.symm⟩
  rintro ⟨rest, hrest⟩
  match body, hinner with
  | [], _ => rcases join_cases segs with hj | ⟨r, hj⟩ | ⟨s, r, -, -, hj⟩ <;> simp [hj] at hrest
  | [c], _ => rcases join_cases segs with hj | ⟨r, hj⟩ | ⟨s, r, -, -, hj⟩ <;> simp [hj] at hrest
  | c :: d :: tail, hinner =>
    simp only [List.cons_append, List.cons.injEq] at hrest
    obtain ⟨rfl, rfl, rfl, -⟩ := hrest
    exact hinner tail rfl

/-- Nor does a 4-byte code. -/
theorem not_code4 (h : Clean (b :: body) segs) : ¬ [0, 0, 0, 1] <+: b :: (body ++ join segs) := by
  rintro ⟨rest, hrest⟩
  cases body with
  | nil =>
    -- a zero in front of a 3-byte code
    rcases join_cases segs with hj | ⟨r, hj⟩ | ⟨s, r, hs, hcode, hj⟩
    · simp [hj] at hrest
    · simp [hj] at hrest
    · simp only [List.cons_append, List.cons.injEq] at hrest
      exact h.border s hs hcode ⟨[], by rw [hrest.1]; rfl⟩
  | cons c body =>
    simp only [List.cons_append, List.cons.injEq] at hrest
    obtain ⟨-, hrest⟩ := hrest
    exact h.tail.not_code3 ⟨rest, by simpa using hrest⟩

end Clean

/-! ## The scan of segments -/

/-- The positions behind the start codes of segments that begin at `i`. -/
def startsOf : Nat → List Segment → List (Nat × Nat)
  | _, [] => []
  | i, s :: segs =>
    (i + s.code.len, s.code.len) :: startsOf (i + s.code.len + s.body.length) segs

theorem scanStarts_other {i : Nat} {b : UInt8} {l : Bytes} (h4 : ¬ [0, 0, 0, 1] <+: b :: l)
    (h3 : ¬ [0, 0, 1] <+: b :: l) : scanStarts i (b :: l) = scanStarts (i + 1) l := by
  rw [scanStarts]
  · rintro tail rfl rfl
    exact h4 ⟨tail, rfl⟩
  · rintro tail rfl rfl
    exact h3 ⟨tail, rfl⟩

/-- The scan finds nothing in a clean body. -/
theorem scanStarts_body {i : Nat} {body : Bytes} {segs : List Segment} (h : Clean body segs) :
    scanStarts i (body ++ join segs) = scanStarts (i + body.length) (join segs) := by
  induction body generalizing i with
  | nil => rfl
  | cons b body ih =>
    rw [List.cons_append, scanStarts_other h.not_code4 h.not_code3, ih h.tail, List.length_cons,
      Nat.add_right_comm, Nat.add_assoc]

theorem scanStarts_code (i : Nat) (code : StartCode) (l : Bytes) :
    scanStarts i (code.bytes ++ l) = (i + code.len, code.len) :: scanStarts (i + code.len) l := by
  cases code with
  | four => rfl
  | three => simp [StartCode.bytes, StartCode.len, scanStarts]

theorem scanStarts_join {i : Nat} {segs : List Segment} (h : Canonical segs) :
    scanStarts i (join segs) = startsOf i segs := by
  induction segs generalizing i with
  | nil => rfl
  | cons s segs ih =>
    rw [join_cons, scanStarts_code, scanStarts_body h.1, ih h.2, startsOf]

/-- The chunks of segments: the bodies that are not empty, each behind a canonical
    start code. -/
def chunksOf (segs : List Segment) : List Bytes :=
  ((segs.map Segment.body).filter (· ≠ [])).map (startCode ++ ·)

theorem chunksOf_cons (s : Segment) (segs : List Segment) :
    chunksOf (s :: segs) =
      if s.body = [] then chunksOf segs else (startCode ++ s.body) :: chunksOf segs := by
  by_cases hbody : s.body = [] <;> simp [chunksOf, hbody]

theorem stopBefore_startsOf (pre body : Bytes) (segs : List Segment) :
    Indexed.stopBefore (pre ++ (body ++ join segs)) (startsOf (pre.length + body.length) segs) =
      pre.length + body.length := by
  cases segs with
  | nil => simp [startsOf, Indexed.stopBefore, join]
  | cons s segs => simp only [startsOf, Indexed.stopBefore, Nat.add_sub_cancel]

/-- The slices between the start codes are the bodies. -/
theorem sliceNals_startsOf (pre : Bytes) (segs : List Segment) :
    sliceNals (pre ++ join segs) (startsOf pre.length segs) = chunksOf segs := by
  induction segs generalizing pre with
  | nil => rfl
  | cons s segs ih =>
    have hsplit : pre ++ join (s :: segs) = (pre ++ s.code.bytes) ++ (s.body ++ join segs) := by
      rw [join_cons, List.append_assoc]
    have hlen : pre.length + s.code.len = (pre ++ s.code.bytes).length := by
      rw [List.length_append, StartCode.length_bytes]
    have hrest := ih ((pre ++ s.code.bytes) ++ s.body)
    rw [List.append_assoc, List.length_append] at hrest
    rw [startsOf, Indexed.sliceNals_cons, hsplit, hlen, stopBefore_startsOf, hrest, chunksOf_cons,
      Indexed.chunk]
    by_cases hbody : s.body = []
    · simp [hbody]
    · have hpos := List.length_pos_iff.mpr hbody
      rw [if_neg (by omega), if_neg hbody, List.drop_left, Nat.add_sub_cancel_left, List.take_left]
      rfl

/-- A buffer put together from canonical segments is split into their bodies. -/
theorem annexbSplit_join {segs : List Segment} (h : Canonical segs) :
    annexbSplit (join segs) = chunksOf segs := by
  have hslices := sliceNals_startsOf [] segs
  rw [List.nil_append, List.length_nil] at hslices
  rw [annexbSplit, scanStarts_join h, hslices]

/-! ## Every buffer has segments -/

theorem exists_segments (l : Bytes) :
    ∃ body segs, l = body ++ join segs ∧ Clean body segs ∧ Canonical segs := by
  induction (0 : Nat), l using scanStarts.induct with
  | case1 i rest ih =>
    obtain ⟨body, segs, rfl, hclean, hsegs⟩ := ih
    exact ⟨[], ⟨.four, body⟩ :: segs, by rw [join_cons]; rfl, .nil _, hclean, hsegs⟩
  | case2 i rest ih =>
    obtain ⟨body, segs, rfl, hclean, hsegs⟩ := ih
    exact ⟨[], ⟨.three, body⟩ :: segs, by rw [join_cons]; rfl, .nil _, hclean, hsegs⟩
  | case3 i b rest hcode4 hcode3 ih =>
    obtain ⟨body, segs, rfl, hclean, hsegs⟩ := ih
    refine ⟨b :: body, segs, rfl, ⟨?_, ?_⟩, hsegs⟩
    · intro hin
      rcases List.infix_cons_iff.mp hin with ⟨tail, htail⟩ | hin
      · simp only [List.cons_append, List.nil_append, List.cons.injEq] at htail
        obtain ⟨rfl, rfl⟩ := htail
        exact hcode3 _ rfl rfl
      · exact hclean.inner hin
    · intro s hs hcode hend
      rcases List.suffix_cons_iff.mp hend with heq | hend
      · -- the byte is all there is of the body: with the code it is a 4-byte code
        rw [List.cons.injEq] at heq
        obtain ⟨rfl, rfl⟩ := heq
        cases segs with
        | nil => simp at hs
        | cons t segs =>
          rw [List.head?_cons, Option.some.injEq] at hs
          subst hs
          refine hcode4 (t.body ++ join segs) rfl ?_
          rw [List.nil_append, join_cons, hcode]
          rfl
      · exact hclean.border s hs hcode hend
  | case4 i => exact ⟨[], [], rfl, .nil _, trivial⟩

/-- A buffer that begins with a start code is canonical segments. -/
theorem exists_canonical {buf : Bytes} (h : [0, 0, 1] <+: buf ∨ [0, 0, 0, 1] <+: buf) :
    ∃ segs, segs ≠ [] ∧ buf = join segs ∧ Canonical segs := by
  have hcode : ∃ (code : StartCode) (rest : Bytes), buf = code.bytes ++ rest := by
    rcases h with ⟨rest, rfl⟩ | ⟨rest, rfl⟩
    · exact ⟨.three, rest, rfl⟩
    · exact ⟨.four, rest, rfl⟩
  obtain ⟨code, rest, rfl⟩ := hcode
  obtain ⟨body, segs, rfl, hclean, hsegs⟩ := exists_segments rest
  exact ⟨⟨code, body⟩ :: segs, by simp, by rw [join_cons], hclean, hsegs⟩

theorem isAnnexb_join {segs : List Segment} (h : segs ≠ []) : isAnnexb (join segs) = true := by
  cases segs with
  | nil => exact absurd rfl h
  | cons s segs =>
    rw [join_cons, isAnnexb_iff]
    match s.code with
    | .three => exact .inl ⟨_, rfl⟩
    | .four => exact .inr ⟨_, rfl⟩

/-- The conversion, on offsets, of canonical segments. -/
theorem avccToAnnexb_join {segs : List Segment} (hne : segs ≠ []) (h : Canonical segs) :
    Indexed.avccToAnnexb (join segs) = some (chunksOf segs) := by
  rw [Indexed.avccToAnnexb, if_pos (isAnnexb_join hne), Indexed.annexbSplit_eq,
    annexbSplit_join h]

/-! ## The conversion of its own output -/

theorem Canonical.inner {segs : List Segment} (h : Canonical segs) :
    ∀ s ∈ segs, ¬ [0, 0, 1] <:+: s.body := by
  induction segs with
  | nil => simp
  | cons s segs ih => exact List.forall_mem_cons.mpr ⟨h.1.inner, ih h.2⟩

theorem Canonical.border {segs : List Segment} (h : Canonical segs) {pre post : List Segment}
    {s t : Segment} (hsegs : segs = pre ++ s :: t :: post) (hcode : t.code = .three) :
    ¬ [0] <:+ s.body := by
  induction pre generalizing segs with
  | nil =>
    subst hsegs
    exact h.1.border t rfl hcode
  | cons r pre ih =>
    subst hsegs
    exact ih h.2 rfl

/-- Bodies without a start code, each behind a 4-byte code, are canonical. -/
theorem canonical_four {bodies : List Bytes} (h : ∀ b ∈ bodies, ¬ [0, 0, 1] <:+: b) :
    Canonical (bodies.map (Segment.mk .four)) := by
  induction bodies with
  | nil => trivial
  | cons b bodies ih =>
    have hinner := List.forall_mem_cons.mp h
    refine ⟨⟨hinner.1, ?_⟩, ih hinner.2⟩
    intro s hs hcode
    obtain ⟨c, -, rfl⟩ := List.mem_map.mp (List.mem_of_head? hs)
    exact absurd hcode (by simp)

theorem join_four (bodies : List Bytes) :
    join (bodies.map (Segment.mk .four)) = (bodies.map (startCode ++ ·)).flatten := by
  rw [join, List.flatMap_map, ← List.flatMap_def]
  rfl

/-- Converting the chunks of segments again gives the same chunks. -/
theorem avccToAnnexb_chunksOf {segs : List Segment} (h : ∀ s ∈ segs, ¬ [0, 0, 1] <:+: s.body) :
    Indexed.avccToAnnexb (chunksOf segs).flatten = some (chunksOf segs) := by
  have hbodies : ∀ b ∈ (segs.map Segment.body).filter (· ≠ []), ¬ [0, 0, 1] <:+: b := by
    intro b hb
    obtain ⟨s, hs, rfl⟩ := List.mem_map.mp (List.mem_filter.mp hb).1
    exact h s hs
  have hcanonical := canonical_four hbodies
  by_cases hnil : (segs.map Segment.body).filter (· ≠ []) = []
  · have hempty : Indexed.avccToAnnexb [] = some [] := by
      rw [Indexed.avccToAnnexb_eq (by decide)]
      rfl
    rw [chunksOf, hnil]
    exact hempty
  · have hsplit := avccToAnnexb_join (by simpa using hnil) hcanonical
    rw [join_four] at hsplit
    have hsame : chunksOf (((segs.map Segment.body).filter (· ≠ [])).map (Segment.mk .four)) =
        chunksOf segs := by
      have hid : Segment.body ∘ Segment.mk .four = id := rfl
      rw [chunksOf, List.map_map, hid, List.map_id, List.filter_filter]
      simp [chunksOf]
    rw [hsame] at hsplit
    exact hsplit

/-! ## Framed NALs -/

/-- NALs as an encoder frames them: none is empty or holds a start code, and none but
    the last ends in a zero. -/
structure Framed (segs : List Segment) : Prop where
  nonempty : ∀ s ∈ segs, s.body ≠ []
  inner : ∀ s ∈ segs, ¬ [0, 0, 1] <:+: s.body
  border : ∀ s ∈ segs.dropLast, ¬ [0] <:+ s.body

theorem Framed.canonical {segs : List Segment} (h : Framed segs) : Canonical segs := by
  obtain ⟨-, hinner, hborder⟩ := h
  induction segs with
  | nil => trivial
  | cons s segs ih =>
    have hinner' := List.forall_mem_cons.mp hinner
    cases segs with
    | nil => exact ⟨⟨hinner'.1, fun t ht => by simp at ht⟩, trivial⟩
    | cons t segs =>
      rw [List.dropLast_cons_cons, List.forall_mem_cons] at hborder
      exact ⟨⟨hinner'.1, fun _ _ _ => hborder.1⟩, ih hinner'.2 hborder.2⟩

theorem Framed.chunksOf_eq {segs : List Segment} (h : Framed segs) :
    chunksOf segs = segs.map fun s => startCode ++ s.body := by
  have hall : (segs.map Segment.body).filter (· ≠ []) = segs.map Segment.body := by
    rw [List.filter_eq_self]
    intro b hb
    obtain ⟨s, hs, rfl⟩ := List.mem_map.mp hb
    simpa using h.nonempty s hs
  rw [chunksOf, hall, List.map_map]
  rfl

/-- Every buffer that begins with a start code is start codes with bodies, no body holds
    a start code or shares a zero with the one behind it, and the conversion returns
    the bodies that are not empty. So framed NALs come back as they are, whatever mix
    of start codes frames them, and so does the output of the conversion. -/
theorem annexb_lossless :
    (∀ buf : Bytes, [0, 0, 1] <+: buf ∨ [0, 0, 0, 1] <+: buf →
      ∃ segs : List Segment, segs ≠ [] ∧ buf = segs.flatMap (fun s => s.code.bytes ++ s.body) ∧
        (∀ s ∈ segs, ¬ [0, 0, 1] <:+: s.body) ∧
        (∀ pre s t post, segs = pre ++ s :: t :: post → t.code = .three → ¬ [0] <:+ s.body) ∧
        Indexed.avccToAnnexb buf =
          some (((segs.map Segment.body).filter (· ≠ [])).map ([0, 0, 0, 1] ++ ·)) ∧
        Indexed.avccToAnnexb
            (((segs.map Segment.body).filter (· ≠ [])).map ([0, 0, 0, 1] ++ ·)).flatten =
          some (((segs.map Segment.body).filter (· ≠ [])).map ([0, 0, 0, 1] ++ ·))) ∧
    (∀ segs : List Segment, segs ≠ [] → Framed segs →
      Indexed.avccToAnnexb (segs.flatMap fun s => s.code.bytes ++ s.body) =
        some (segs.map fun s => [0, 0, 0, 1] ++ s.body) ∧
      Indexed.avccToAnnexb (segs.map fun s => [0, 0, 0, 1] ++ s.body).flatten =
        some (segs.map fun s => [0, 0, 0, 1] ++ s.body)) := by
  constructor
  · intro buf hbuf
    obtain ⟨segs, hne, rfl, hcanonical⟩ := exists_canonical hbuf
    exact ⟨segs, hne, rfl, hcanonical.inner, fun _ _ _ _ => hcanonical.border,
      avccToAnnexb_join hne hcanonical, avccToAnnexb_chunksOf hcanonical.inner⟩
  · intro segs hne hframed
    have hsplit := avccToAnnexb_join hne hframed.canonical
    have hagain := avccToAnnexb_chunksOf hframed.inner
    rw [hframed.chunksOf_eq] at hsplit hagain
    exact ⟨hsplit, hagain⟩

/-- A 3-byte code, a body that ends in a zero, an empty body, and framed NALs. -/
theorem annexb_lossless_mixed :
    (∃ segs : List Segment, segs ≠ [] ∧
      [0, 0, 1, 0xaa, 0, 0, 0, 0, 1, 0, 0, 1, 0xbb] =
        segs.flatMap (fun s => s.code.bytes ++ s.body)) ∧
    Indexed.avccToAnnexb ([⟨.three, [0x09]⟩, ⟨.four, [0x67, 0x42]⟩].flatMap fun s =>
      StartCode.bytes s.code ++ Segment.body s) =
        some [[0, 0, 0, 1, 0x09], [0, 0, 0, 1, 0x67, 0x42]] := by
  constructor
  · obtain ⟨segs, hne, hbuf, -⟩ := annexb_lossless.1 [0, 0, 1, 0xaa, 0, 0, 0, 0, 1, 0, 0, 1, 0xbb]
      (by decide)
    exact ⟨segs, hne, hbuf⟩
  · exact (annexb_lossless.2 [⟨.three, [0x09]⟩, ⟨.four, [0x67, 0x42]⟩] (by decide)
      ⟨by decide, by decide, by decide⟩).1

end XyzenRelay.Capture
