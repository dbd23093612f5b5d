import Mathlib
import GeoLedger.Simulator.SseWire

/-! What the client reads from a stream that arrives in chunks. The buffer sees
the text with every CRLF shortened to LF, except where a chunk ends inside the
CRLF; frames are then cut at empty lines, wherever the chunks end. -/
namespace SseWire
open JsonText Blocks

section Loop

/-- The loop takes every block of the buffer. -/
theorem drain_eq {fuel : Nat} {buffer : Text} (hFuel : buffer.length ≤ fuel) :
    drain fuel buffer = ((cut '\n' buffer).1.filterMap frameMessage, (cut '\n' buffer).2) := by
  induction fuel generalizing buffer with
  | zero =>
      rw [List.length_eq_zero_iff.mp (Nat.le_zero.mp hFuel)]
      rfl
  | succ fuel ih =>
      rw [drain, cut_of_nextBlock]
      cases hNext : nextBlock '\n' buffer with
      | none => rfl
      | some next =>
          obtain ⟨rawFrame, rest⟩ := next
          have hShorter := length_of_nextBlock '\n' hNext
          simp only [ih (show rest.length ≤ fuel by omega), List.filterMap_cons]
          cases frameMessage rawFrame <;> rfl

/-- What the chunks are read as depends on their normalized texts together. -/
theorem parseChunks_eq {buffer : Text} (chunks : List Text) (hBuffer : cut '\n' buffer = ([], buffer)) :
    parseChunks buffer chunks =
      ((cut '\n' (buffer ++ (chunks.map normalizeCrlf).flatten)).1.filterMap frameMessage,
        (cut '\n' (buffer ++ (chunks.map normalizeCrlf).flatten)).2) := by
  induction chunks generalizing buffer with
  | nil => simp [parseChunks, hBuffer]
  | cons chunk rest ih =>
      rw [parseChunks, parseSseChunk, drain_eq le_rfl]
      simp only
      rw [ih (cut_rest '\n' _), List.map_cons, List.flatten_cons, ← List.append_assoc,
        cut_append '\n' (buffer ++ normalizeCrlf chunk), List.filterMap_append]

end Loop

section Seams

/-- The text that the buffer sees, when `torn` tells which offsets of the stream
start a chunk: a CRLF stays as it is where a chunk starts inside it. -/
def seam (torn : Nat → Bool) : Nat → Text → Text
  | n, '\r' :: '\n' :: rest =>
      if torn (n + 1) then '\r' :: '\n' :: seam torn (n + 2) rest else '\n' :: seam torn (n + 2) rest
  | n, c :: rest => c :: seam torn (n + 1) rest
  | _, [] => []

/-- The offsets at which a chunk ends. -/
def boundaries : List Text → List Nat
  | [] => []
  | chunk :: rest => chunk.length :: (boundaries rest).map (chunk.length + ·)

/-- The seam of a text depends only on which of its own boundaries are torn. -/
theorem seam_congr {torn torn' : Nat → Bool} {n m : Nat} (text : Text)
    (h : ∀ k, torn (n + k + 1) = torn' (m + k + 1)) : seam torn n text = seam torn' m text := by
  induction text using normalizeCrlf.induct generalizing n m with
  | case1 rest ih =>
      have hRest : seam torn (n + 2) rest = seam torn' (m + 2) rest := by
        refine ih fun k => ?_
        rw [show n + 2 + k + 1 = n + (k + 2) + 1 by omega, show m + 2 + k + 1 = m + (k + 2) + 1 by omega]
        exact h (k + 2)
      have hHere := h 0
      rw [seam, seam, hRest]
      simp only [add_zero] at hHere
      rw [hHere]
  | case2 c rest hNot ih =>
      have hRest : seam torn (n + 1) rest = seam torn' (m + 1) rest := by
        refine ih fun k => ?_
        rw [show n + 1 + k + 1 = n + (k + 1) + 1 by omega, show m + 1 + k + 1 = m + (k + 1) + 1 by omega]
        exact h (k + 1)
      rw [seam, seam, hRest]
      · intro rest' hc
        exact hNot rest' hc
      · intro rest' hc
        exact hNot rest' hc
  | case3 => rfl

/-- A character that starts no CRLF passes the seam. -/
theorem seam_cons {torn : Nat → Bool} {n : Nat} {c : Char} {rest : Text}
    (hNot : ∀ rest', c = '\r' → rest = '\n' :: rest' → False) :
    seam torn n (c :: rest) = c :: seam torn (n + 1) rest := by
  rw [seam]
  exact hNot

/-- Inside a chunk the buffer sees the normalized text. -/
theorem seam_chunk {torn : Nat → Bool} {n : Nat} (chunk rest : Text)
    (hInside : ∀ k, 0 < k → k < chunk.length → torn (n + k) = false)
    (hEnd : torn (n + chunk.length) = true) :
    seam torn n (chunk ++ rest) = normalizeCrlf chunk ++ seam torn (n + chunk.length) rest := by
  induction chunk using normalizeCrlf.induct generalizing n with
  | case1 tail ih =>
      have hWhole : torn (n + 1) = false := hInside 1 Nat.one_pos (by simp)
      have hTail : seam torn (n + 2) (tail ++ rest) =
          normalizeCrlf tail ++ seam torn (n + 2 + tail.length) rest := by
        refine ih (fun k hPos hk => ?_) ?_
        · rw [Nat.add_assoc]
          exact hInside (2 + k) (by omega) (by simp; omega)
        · rw [← hEnd]
          congr 1
          simp
          omega
      rw [List.cons_append, List.cons_append, seam, hWhole, if_neg Bool.false_ne_true, hTail, normalizeCrlf,
        List.cons_append]
      simp only [List.length_cons]
      congr 3
      omega
  | case2 c tail hNot ih =>
      have hTail : seam torn (n + 1) (tail ++ rest) =
          normalizeCrlf tail ++ seam torn (n + 1 + tail.length) rest := by
        cases tail with
        | nil => rfl
        | cons d tail =>
            refine ih (fun k hPos hk => ?_) ?_
            · rw [Nat.add_assoc]
              exact hInside (1 + k) (by omega) (by simp at hk ⊢; omega)
            · rw [← hEnd]
              congr 1
              simp
              omega
      rw [normalizeCrlf, List.cons_append, List.cons_append, List.length_cons,
        show n + (tail.length + 1) = n + 1 + tail.length by omega, ← hTail]
      · by_cases hPair : c = '\r' ∧ ∃ rest', tail ++ rest = '\n' :: rest'
        · -- the chunk ends between the two characters of a line end
          obtain ⟨rfl, rest', hRest⟩ := hPair
          cases tail with
          | cons d tail =>
              rw [List.cons_append, List.cons.injEq] at hRest
              exact absurd (hRest.1 ▸ rfl) (hNot tail rfl)
          | nil =>
              rw [List.nil_append] at hRest
              have hTorn : torn (n + 1) = true := hEnd
              rw [List.nil_append, hRest, seam, if_pos hTorn, seam_cons (by simp)]
        · exact seam_cons fun rest' hc hRest => hPair ⟨hc, rest', hRest⟩
      · intro rest' hc hTail'
        exact hNot rest' hc hTail'
  | case3 => simp [normalizeCrlf]

/-- The first boundary is the end of the first chunk. -/
theorem length_le_of_mem_boundaries {chunk : Text} {rest : List Text} {n : Nat}
    (h : n ∈ boundaries (chunk :: rest)) : chunk.length ≤ n := by
  rw [boundaries, List.mem_cons, List.mem_map] at h
  rcases h with rfl | ⟨m, _, rfl⟩
  · exact le_rfl
  · omega

/-- Normalizing every chunk shortens the line ends in which no chunk starts. -/
theorem flatten_normalizeCrlf (chunks : List Text) :
    (chunks.map normalizeCrlf).flatten = seam (· ∈ boundaries chunks) 0 chunks.flatten := by
  induction chunks with
  | nil => rfl
  | cons chunk rest ih =>
      have hInside : ∀ k, 0 < k → k < chunk.length → (decide (0 + k ∈ boundaries (chunk :: rest))) = false := by
        intro k _ hk
        rw [decide_eq_false_iff_not, Nat.zero_add]
        intro hMem
        exact absurd (length_le_of_mem_boundaries hMem) (by omega)
      have hEnd : decide (0 + chunk.length ∈ boundaries (chunk :: rest)) = true := by simp [boundaries]
      rw [List.map_cons, List.flatten_cons, List.flatten_cons, seam_chunk chunk rest.flatten hInside hEnd, ih]
      congr 1
      refine (seam_congr _ fun k => ?_).symm
      simp only [boundaries, List.mem_cons, List.mem_map]
      congr 1
      rw [eq_iff_iff]
      constructor
      · rintro (h | ⟨m, hMem, hm⟩)
        · omega
        · rwa [show 0 + k + 1 = m by omega]
      · intro hMem
        exact .inr ⟨_, hMem, by omega⟩

end Seams

section SeenLines

/-- A line as the buffer sees it: with a carriage return where its line end is torn. -/
def seenLine (torn : Bool) (line : Text) : Text := line ++ if torn then ['\r'] else []

/-- The lines of a text that starts at an offset, as the buffer sees them. -/
def seenLines (torn : Nat → Bool) : Nat → List Text → List Text
  | _, [] => []
  | n, line :: rest => seenLine (torn (n + line.length + 1)) line :: seenLines torn (n + line.length + 2) rest

/-- The text of lines under CRLF. -/
def crlfText (lines : List Text) : Text := lines.flatMap (· ++ LineEnd.crlf.chars)

/-- A line without a carriage return passes the seam. -/
theorem seam_append_of_notMem {torn : Nat → Bool} {line : Text} (hLine : '\r' ∉ line) (n : Nat) (rest : Text) :
    seam torn n (line ++ rest) = line ++ seam torn (n + line.length) rest := by
  induction line generalizing n with
  | nil => rfl
  | cons c line ih =>
      rw [List.mem_cons, not_or] at hLine
      rw [List.cons_append, seam_cons (fun _ hc => absurd hc.symm hLine.1), ih hLine.2, List.cons_append,
        List.length_cons, show n + 1 + line.length = n + (line.length + 1) by omega]

/-- The buffer sees the lines of a CRLF text one after another. -/
theorem seam_crlfText {torn : Nat → Bool} {lines : List Text} (hLines : ∀ line ∈ lines, '\r' ∉ line) (n : Nat)
    (rest : Text) :
    seam torn n (crlfText lines ++ rest) =
      unlines '\n' (seenLines torn n lines) ++ seam torn (n + (crlfText lines).length) rest := by
  induction lines generalizing n with
  | nil => rfl
  | cons line lines ih =>
      have hRest := ih (fun l hl => hLines l (List.mem_cons_of_mem _ hl)) (n + line.length + 2)
      have hLength : n + (crlfText (line :: lines)).length = n + line.length + 2 + (crlfText lines).length := by
        simp [crlfText, LineEnd.chars]
        omega
      rw [hLength, seenLines, unlines, List.flatMap_cons, List.append_assoc, ← unlines, ← hRest, crlfText,
        List.flatMap_cons, List.append_assoc, List.append_assoc,
        seam_append_of_notMem (hLines line List.mem_cons_self), seenLine, ← crlfText]
      cases hTorn : torn (n + line.length + 1) <;> simp [LineEnd.chars, seam, hTorn]

/-- The last line of a frame is seen like the others. -/
theorem seenLines_append (torn : Nat → Bool) (n : Nat) (lines : List Text) (last : Text) :
    seenLines torn n (lines ++ [last]) =
      seenLines torn n lines ++ [seenLine (torn (n + (crlfText lines).length + last.length + 1)) last] := by
  induction lines generalizing n with
  | nil => rfl
  | cons line lines ih =>
      have hLength : n + (crlfText (line :: lines)).length = n + line.length + 2 + (crlfText lines).length := by
        simp [crlfText, LineEnd.chars]
        omega
      rw [List.cons_append, seenLines, ih, seenLines, hLength, List.cons_append]

end SeenLines

section Reading

/-- The JSON text of an event has no line breaks. -/
theorem data_noBreak (e : StreamEvent) : ∀ c ∈ e.data, c ≠ '\n' ∧ c ≠ '\r' :=
  dumps_noBreak Escaping.unicode (.dict e.payload)

/-- The id of an event has no line breaks. -/
theorem id_noBreak (e : StreamEvent) : ∀ c ∈ e.id, c ≠ '\n' ∧ c ≠ '\r' := by
  intro c hc
  constructor <;> rintro rfl
  · exact absurd (e.id_solid _ hc) (by simp [isJsWhitespace])
  · exact absurd (e.id_solid _ hc) (by simp [isJsWhitespace])

/-- The lines of a frame have no line break. -/
theorem lines_noBreak (item : StreamItem) : ∀ line ∈ item.lines, ∀ c ∈ line, c ≠ '\n' ∧ c ≠ '\r' := by
  cases item with
  | keepAlive => simp [StreamItem.lines]
  | event e =>
      have hId : ∀ c ∈ "id: ".toList, c ≠ '\n' ∧ c ≠ '\r' := by simp
      have hEvent : ∀ c ∈ "event: simulator.event".toList, c ≠ '\n' ∧ c ≠ '\r' := by simp
      have hData : ∀ c ∈ "data: ".toList, c ≠ '\n' ∧ c ≠ '\r' := by simp
      intro line hLine c hc
      simp only [StreamItem.lines, List.mem_cons, List.not_mem_nil, or_false] at hLine
      rcases hLine with rfl | rfl | rfl
      · exact (List.mem_append.mp hc).elim (hId c) (id_noBreak e c)
      · exact hEvent c hc
      · exact (List.mem_append.mp hc).elim (hData c) (data_noBreak e c)

/-- White space around a solid text is trimmed. -/
theorem trim_solid {solid after : Text} (hNonempty : solid ≠ []) (hSolid : ∀ c ∈ solid, isJsWhitespace c = false)
    (hAfter : ∀ c ∈ after, isJsWhitespace c = true) : trim (' ' :: (solid ++ after)) = solid := by
  have hStart : trimStart (' ' :: (solid ++ after)) = solid ++ after := by
    obtain ⟨c, rest, rfl⟩ := List.exists_cons_of_ne_nil hNonempty
    have hc := hSolid c List.mem_cons_self
    simp [trimStart, hc, show isJsWhitespace ' ' = true by simp [isJsWhitespace]]
  rw [trim, hStart, List.rdropWhile, List.reverse_append,
    List.dropWhile_append_of_pos (by simpa using hAfter)]
  obtain ⟨c, rest, hReverse⟩ := List.exists_cons_of_ne_nil (List.reverse_ne_nil_iff.mpr hNonempty)
  have hc : isJsWhitespace c = false := by
    refine hSolid c (List.mem_reverse.mp ?_)
    rw [hReverse]
    exact List.mem_cons_self
  rw [hReverse, List.dropWhile_cons_of_neg (by simp [hc]), ← hReverse, List.reverse_reverse]

/-- Trimming takes the blank off a data line and nothing of the JSON text, which starts with
a brace. -/
theorem trimStart_data (e : StreamEvent) (after : Text) : trimStart (' ' :: (e.data ++ after)) = e.data ++ after := by
  obtain ⟨rest, hData⟩ := dumps_dict Escaping.unicode e.payload
  rw [StreamEvent.data, hData]
  rfl

variable (torn : Bool) (fields : FrameFields)

theorem seenLine_tail : ∀ c ∈ (if torn then ['\r'] else [] : Text), isJsWhitespace c = true := by
  cases torn <;> simp [isJsWhitespace]

/-- The id line of an event sets the id, also with a carriage return left on it. -/
theorem readLine_id (e : StreamEvent) :
    readLine fields (seenLine torn ("id: ".toList ++ e.id)) = { fields with id := some e.id } := by
  have hTrim := trim_solid e.id_nonempty e.id_solid (seenLine_tail torn)
  simp [readLine, seenLine, hTrim]

/-- The event line sets the name, also with a carriage return left on it. -/
theorem readLine_event :
    readLine fields (seenLine torn "event: simulator.event".toList) =
      { fields with event := some "simulator.event".toList } := by
  have hSolid : ∀ c ∈ "simulator.event".toList, isJsWhitespace c = false := by simp [isJsWhitespace]
  have hTrim := trim_solid (by simp) hSolid (seenLine_tail torn)
  simp at hTrim
  simp [readLine, seenLine, hTrim]

/-- The data line adds the JSON text, with the carriage return that was left on it. -/
theorem readLine_data (e : StreamEvent) :
    readLine fields (seenLine torn ("data: ".toList ++ e.data)) =
      { fields with dataLines := fields.dataLines ++ [seenLine torn e.data] } := by
  have hTrim := trimStart_data e (if torn then ['\r'] else [])
  simp [readLine, seenLine, hTrim]

/-- A keep-alive comment changes no fields. -/
theorem readLine_keepAlive : readLine fields (seenLine torn ": keep-alive".toList) = fields := by
  simp [readLine, seenLine]

/-- A torn empty line is read as an unknown field. -/
theorem readLine_carriage : readLine fields ['\r'] = fields := by
  simp [readLine]

end Reading

section Frames

/-- A frame of a CRLF stream, with the line ends that a chunk boundary tears: the
one before its empty line, and the one of its empty line. -/
structure CutFrame where
  item : StreamItem
  contentTorn : Bool
  lastTorn : Bool

/-- The frames of a stream that goes on at an offset. -/
def cutFrames (torn : Nat → Bool) : Nat → List StreamItem → List CutFrame
  | _, [] => []
  | n, item :: rest =>
      let next := n + (item.frame .crlf).length
      ⟨item, torn (next - 3), torn (next - 1)⟩ :: cutFrames torn next rest

/-- What the lines of a frame add to the fields. -/
def CutFrame.read (fields : FrameFields) (f : CutFrame) : FrameFields :=
  match f.item with
  | .event e =>
      ⟨some e.id, some "simulator.event".toList, fields.dataLines ++ [seenLine f.contentTorn e.data]⟩
  | .keepAlive => fields

/-- The messages of frames, when the fields of an unfinished block are known: a
block ends at the first frame whose empty line is whole. -/
def collect : FrameFields → List CutFrame → List SseParsedMessage
  | _, [] => []
  | fields, f :: rest =>
      if f.lastTorn then collect (f.read fields) rest
      else (f.read fields).message.toList ++ collect .empty rest

/-- The last block is finished. -/
def Finished : Bool → List CutFrame → Prop
  | unfinished, [] => unfinished = false
  | _, f :: rest => Finished f.lastTorn rest

/-- With CRLF a frame is the text of its lines and of the empty one. -/
theorem frame_eq_crlfText (item : StreamItem) : item.frame .crlf = crlfText (item.lines ++ [[]]) := by
  simp [StreamItem.frame, crlfText]

/-- Lines are still lines with carriage returns left on them. -/
theorem isLine_seenLines {torn : Nat → Bool} {lines : List Text} (n : Nat)
    (hLines : ∀ line ∈ lines, IsLine '\n' line) : ∀ line ∈ seenLines torn n lines, IsLine '\n' line := by
  induction lines generalizing n with
  | nil => simp [seenLines]
  | cons line lines ih =>
      intro seen hSeen
      rw [seenLines, List.mem_cons] at hSeen
      rcases hSeen with rfl | hSeen
      · obtain ⟨hNonempty, hSep⟩ := hLines line List.mem_cons_self
        refine ⟨by simp [seenLine, hNonempty], ?_⟩
        rw [seenLine, List.mem_append, not_or]
        refine ⟨hSep, ?_⟩
        split <;> simp
      · exact ih _ (fun l hl => hLines l (List.mem_cons_of_mem _ hl)) seen hSeen

/-- The lines of a frame have no line feeds in them. -/
theorem isLine_lines (item : StreamItem) : ∀ line ∈ item.lines, IsLine '\n' line := by
  intro line hLine
  refine ⟨?_, fun hMem => (lines_noBreak item line hLine _ hMem).1 rfl⟩
  rintro rfl
  cases item <;> simp [StreamItem.lines] at hLine

/-- The lines of a frame are read as its fields. -/
theorem foldl_readLine_seenLines (torn : Nat → Bool) (n : Nat) (item : StreamItem) (fields : FrameFields)
    (last : Bool) :
    (seenLines torn n item.lines).foldl readLine fields =
      CutFrame.read fields ⟨item, torn (n + (item.frame .crlf).length - 3), last⟩ := by
  cases item with
  | keepAlive =>
      simp only [StreamItem.lines, seenLines, List.foldl_cons, List.foldl_nil, readLine_keepAlive]
      rfl
  | event e =>
      have hOffset : n + (StreamItem.frame .crlf (.event e)).length - 3 =
          n + ("id: ".toList ++ e.id).length + 2 + "event: simulator.event".toList.length + 2 +
            ("data: ".toList ++ e.data).length + 1 := by
        simp [StreamItem.frame, StreamItem.lines, LineEnd.chars]
        omega
      rw [hOffset]
      simp only [StreamItem.lines, seenLines, List.foldl_cons, List.foldl_nil, readLine_id, readLine_event,
        readLine_data]
      rfl

theorem mem_intercalate {lines : List Text} {line : Text} {c : Char} (hLine : line ∈ lines) (hc : c ∈ line) :
    c ∈ ['\n'].intercalate lines := by
  induction lines with
  | nil => cases hLine
  | cons first lines ih =>
      cases lines with
      | nil => simpa [List.mem_singleton.mp hLine] using hc
      | cons second lines =>
          rw [List.intercalate_cons_cons]
          rcases List.mem_cons.mp hLine with rfl | hLine
          · simp [hc]
          · simp [ih hLine]

theorem trim_ne_nil {text : Text} {c : Char} (hMem : c ∈ text) (hc : isJsWhitespace c = false) : trim text ≠ [] := by
  intro hTrim
  rw [trim, List.rdropWhile_eq_nil_iff] at hTrim
  rw [← List.takeWhile_append_dropWhile (p := isJsWhitespace) (l := text)] at hMem
  rcases List.mem_append.mp hMem with hMem | hMem
  · rw [List.mem_takeWhile_imp hMem] at hc
    cases hc
  · rw [hTrim c hMem] at hc
    cases hc

/-- The message of a block that ends with the lines of a frame. -/
theorem frameMessage_block {torn : Nat → Bool} {n : Nat} {item : StreamItem} {earlier : List Text}
    (hEarlier : ∀ line ∈ earlier, IsLine '\n' line) :
    frameMessage (['\n'].intercalate (earlier ++ seenLines torn n item.lines)) =
      ((seenLines torn n item.lines).foldl readLine (earlier.foldl readLine .empty)).message := by
  have hLines : ∀ line ∈ earlier ++ seenLines torn n item.lines, '\n' ∉ line := by
    intro line hLine
    rcases List.mem_append.mp hLine with hLine | hLine
    · exact (hEarlier line hLine).2
    · exact (isLine_seenLines n (isLine_lines item) line hLine).2
  obtain ⟨first, rest, hItem, hColon⟩ : ∃ first rest, item.lines = first :: rest ∧ ':' ∈ first := by
    cases item <;> exact ⟨_, _, rfl, by simp⟩
  have hSeen : seenLine (torn (n + first.length + 1)) first ∈ earlier ++ seenLines torn n item.lines := by
    rw [hItem, seenLines]
    simp
  have hTrim : trim (['\n'].intercalate (earlier ++ seenLines torn n item.lines)) ≠ [] :=
    trim_ne_nil (mem_intercalate hSeen (List.mem_append_left _ hColon)) (by simp [isJsWhitespace])
  rw [frameMessage, if_neg hTrim, List.splitOn_intercalate _ hLines (List.ne_nil_of_mem hSeen), List.foldl_append]

/-- The blocks of a stream are read frame by frame. -/
theorem parse_stream (torn : Nat → Bool) (items : List StreamItem) (n : Nat) (earlier : List Text)
    (hEarlier : ∀ line ∈ earlier, IsLine '\n' line) :
    (cut '\n' (unlines '\n' earlier ++ seam torn n (streamText .crlf items))).1.filterMap frameMessage =
      collect (earlier.foldl readLine .empty) (cutFrames torn n items) ∧
    ((cut '\n' (unlines '\n' earlier ++ seam torn n (streamText .crlf items))).2 = [] ↔
      Finished (!earlier.isEmpty) (cutFrames torn n items)) := by
  induction items generalizing n earlier with
  | nil =>
      rw [streamText, List.flatMap_nil, seam, List.append_nil, cut_unlines '\n' hEarlier]
      refine ⟨rfl, ?_⟩
      cases earlier <;> simp [unlines, cutFrames, Finished]
  | cons item items ih =>
      have hBreaks : ∀ line ∈ item.lines ++ [[]], '\r' ∉ line := by
        intro line hLine hMem
        rcases List.mem_append.mp hLine with hLine | hLine
        · exact (lines_noBreak item line hLine _ hMem).2 rfl
        · rw [List.mem_singleton.mp hLine] at hMem
          cases hMem
      have hSize : (item.frame .crlf).length = (crlfText item.lines).length + 2 := by
        simp [StreamItem.frame, crlfText, LineEnd.chars]
      have hLast : n + (crlfText item.lines).length + ([] : Text).length + 1 =
          n + (item.frame .crlf).length - 1 := by
        rw [hSize, List.length_nil]
        omega
      have hText : seam torn n (streamText .crlf (item :: items)) =
          unlines '\n' (seenLines torn n item.lines) ++
            (seenLine (torn (n + (item.frame .crlf).length - 1)) [] ++
              '\n' :: seam torn (n + (item.frame .crlf).length) (streamText .crlf items)) := by
        rw [streamText, List.flatMap_cons, ← streamText, frame_eq_crlfText, seam_crlfText hBreaks,
          seenLines_append, hLast, ← frame_eq_crlfText]
        simp [unlines]
      have hBlock : ∀ line ∈ earlier ++ seenLines torn n item.lines, IsLine '\n' line := by
        intro line hLine
        rcases List.mem_append.mp hLine with hLine | hLine
        · exact hEarlier line hLine
        · exact isLine_seenLines n (isLine_lines item) line hLine
      have hRead := foldl_readLine_seenLines torn n item (earlier.foldl readLine .empty)
        (torn (n + (item.frame .crlf).length - 1))
      rw [hText, cutFrames, collect, Finished, ← hRead]
      cases hTorn : torn (n + (item.frame .crlf).length - 1) with
      | true =>
          have hCarriage : ∀ line ∈ earlier ++ seenLines torn n item.lines ++ [['\r']], IsLine '\n' line := by
            intro line hLine
            rcases List.mem_append.mp hLine with hLine | hLine
            · exact hBlock line hLine
            · rw [List.mem_singleton.mp hLine]
              exact ⟨by simp, by simp⟩
          have hNext := ih (n + (item.frame .crlf).length) _ hCarriage
          simp only [List.foldl_append, List.foldl_cons, List.foldl_nil, readLine_carriage] at hNext
          simp only [if_true]
          convert hNext using 3 <;> simp [unlines, seenLine]
      | false =>
          have hNonempty : earlier ++ seenLines torn n item.lines ≠ [] := by
            cases item <;> simp [StreamItem.lines, seenLines]
          have hNext := ih (n + (item.frame .crlf).length) [] (by simp)
          have hCut := cut_unlines_sep '\n' hBlock hNonempty
            (seam torn (n + (item.frame .crlf).length) (streamText .crlf items))
          rw [unlines, List.flatMap_append, ← unlines, ← unlines, List.append_assoc] at hCut
          rw [seenLine, if_neg Bool.false_ne_true, List.append_nil, List.nil_append, hCut, List.filterMap_cons,
            frameMessage_block hEarlier]
          rw [unlines, List.flatMap_nil, List.nil_append] at hNext
          refine ⟨?_, hNext.2⟩
          rw [hNext.1, if_neg Bool.false_ne_true, List.foldl_nil]
          cases ((seenLines torn n item.lines).foldl readLine (earlier.foldl readLine .empty)).message <;> rfl

end Frames

section RoundTrip

def CutFrame.isEvent (f : CutFrame) : Prop := f.item.event?.isSome

/-- The messages that the frames should be read as. -/
def frameMessages (frames : List CutFrame) : List SseParsedMessage := streamMessages (frames.map (·.item))

/-- What is known of an unfinished block. -/
inductive Pending where
  | idle
  | comment
  | event
deriving DecidableEq

/-- No torn line end falls where it harms a message, after an unfinished block. -/
def Whole : Pending → List CutFrame → Prop
  | pending, [] => pending = .idle
  | pending, ⟨.event _, contentTorn, lastTorn⟩ :: rest =>
      pending ≠ .event ∧ contentTorn = false ∧ Whole (if lastTorn then .event else .idle) rest
  | pending, ⟨.keepAlive, _, lastTorn⟩ :: rest =>
      Whole (if lastTorn then (if pending = .event then .event else .comment) else .idle) rest

/-- The fields of a block with one event. -/
def eventFields (e : StreamEvent) (contentTorn : Bool) : FrameFields :=
  ⟨some e.id, some "simulator.event".toList, [seenLine contentTorn e.data]⟩

/-- The fields of an event give one message, with the JSON text as it was seen. -/
theorem message_eventFields (e : StreamEvent) (contentTorn : Bool) :
    (eventFields e contentTorn).message =
      some ⟨some e.id, some "simulator.event".toList, some (seenLine contentTorn e.data)⟩ := by
  simp [eventFields, FrameFields.message]

/-- An empty line makes one message at most. -/
theorem message_toList_length_le (fields : FrameFields) : fields.message.toList.length ≤ 1 := by
  cases fields.message <;> simp

/-- Frames give at most one message each, and one for an unfinished block. -/
theorem length_collect_le (frames : List CutFrame) :
    (collect .empty frames).length ≤ (frameMessages frames).length ∧
    ∀ fields, (collect fields frames).length ≤ (frameMessages frames).length + 1 := by
  induction frames with
  | nil => exact ⟨le_rfl, fun _ => Nat.zero_le _⟩
  | cons f rest ih =>
      obtain ⟨hEmpty, hFields⟩ := ih
      obtain ⟨item, contentTorn, lastTorn⟩ := f
      cases item with
      | event e =>
          have hLength : (frameMessages (⟨.event e, contentTorn, lastTorn⟩ :: rest)).length =
              (frameMessages rest).length + 1 := rfl
          have hAny : ∀ fields, (collect fields (⟨.event e, contentTorn, lastTorn⟩ :: rest)).length ≤
              (frameMessages rest).length + 1 := by
            intro fields
            rw [collect]
            split
            · exact hFields _
            · rw [List.length_append]
              have hOne := message_toList_length_le
                (CutFrame.read fields ⟨.event e, contentTorn, lastTorn⟩)
              omega
          refine ⟨hLength ▸ hAny _, fun fields => ?_⟩
          have hSome := hAny fields
          omega
      | keepAlive =>
          have hLength : (frameMessages (⟨.keepAlive, contentTorn, lastTorn⟩ :: rest)).length =
              (frameMessages rest).length := rfl
          rw [hLength]
          refine ⟨?_, fun fields => ?_⟩
          · rw [collect]
            split
            · exact hEmpty
            · exact hEmpty
          · rw [collect]
            split
            · exact hFields _
            · rw [List.length_append]
              have hOne := message_toList_length_le
                (CutFrame.read fields ⟨.keepAlive, contentTorn, lastTorn⟩)
              omega

/-- Two events in one block lose a message. -/
theorem length_collect_event (fields : FrameFields) (e : StreamEvent) (contentTorn lastTorn : Bool)
    (rest : List CutFrame) :
    (collect fields (⟨.event e, contentTorn, lastTorn⟩ :: rest)).length ≤ (frameMessages rest).length + 1 := by
  rw [collect]
  split
  · exact (length_collect_le rest).2 _
  · rw [List.length_append]
    have hOne := message_toList_length_le (CutFrame.read fields ⟨.event e, contentTorn, lastTorn⟩)
    have hRest := (length_collect_le rest).1
    omega

/-- A carriage return left on the data line changes it. -/
theorem seenLine_true_ne (e : StreamEvent) : seenLine true e.data ≠ e.data := by
  intro h
  have hLength := congrArg List.length h
  simp [seenLine] at hLength

/-- An event whose data line is torn is not read as it was sent. -/
theorem collect_torn_ne (e : StreamEvent) (frames : List CutFrame) :
    collect (eventFields e true) frames ≠ e.message :: frameMessages frames := by
  induction frames with
  | nil => exact (List.cons_ne_nil _ _).symm
  | cons f rest ih =>
      obtain ⟨item, contentTorn, lastTorn⟩ := f
      cases item with
      | event e' =>
          intro h
          have hLength := congrArg List.length h
          have hLost := length_collect_event (eventFields e true) e' contentTorn lastTorn rest
          have hBoth : (e.message :: frameMessages (⟨.event e', contentTorn, lastTorn⟩ :: rest)).length =
              (frameMessages rest).length + 2 := rfl
          omega
      | keepAlive =>
          intro h
          rw [collect] at h
          split at h
          · exact ih h
          · rw [show CutFrame.read (eventFields e true) ⟨.keepAlive, contentTorn, lastTorn⟩ =
              eventFields e true from rfl, message_eventFields] at h
            simp only [Option.toList_some, List.singleton_append, List.cons.injEq, StreamEvent.message,
              SseParsedMessage.mk.injEq, Option.some.injEq, true_and] at h
            exact seenLine_true_ne e h.1

/-- The frames are read exactly when no torn line end harms a message. -/
theorem collect_eq_iff (frames : List CutFrame) :
    (∀ unfinished : Bool, (collect .empty frames = frameMessages frames ∧ Finished unfinished frames) ↔
      Whole (if unfinished then .comment else .idle) frames) ∧
    (∀ e, (collect (eventFields e false) frames = e.message :: frameMessages frames ∧ Finished true frames) ↔
      Whole .event frames) := by
  induction frames with
  | nil =>
      refine ⟨fun unfinished => ?_, fun e => ?_⟩
      · cases unfinished <;> simp [collect, frameMessages, streamMessages, Finished, Whole]
      · simp [collect, Finished, Whole]
  | cons f rest ih =>
      obtain ⟨hIdle, hEvent⟩ := ih
      obtain ⟨item, contentTorn, lastTorn⟩ := f
      cases item with
      | event e' =>
          have hMessages : frameMessages (⟨.event e', contentTorn, lastTorn⟩ :: rest) =
              e'.message :: frameMessages rest := rfl
          refine ⟨fun unfinished => ?_, fun e => ?_⟩
          · have hNot : (if unfinished then Pending.comment else .idle) ≠ .event := by cases unfinished <;> simp
            rw [hMessages, collect, Finished, Whole,
              show CutFrame.read .empty ⟨.event e', contentTorn, lastTorn⟩ = eventFields e' contentTorn from rfl]
            cases contentTorn with
            | true =>
                refine iff_of_false ?_ (by simp)
                rintro ⟨h, _⟩
                cases lastTorn with
                | true => exact collect_torn_ne e' rest (by simpa using h)
                | false =>
                    rw [if_neg Bool.false_ne_true, message_eventFields] at h
                    simp only [Option.toList_some, List.singleton_append, List.cons.injEq, StreamEvent.message,
                      SseParsedMessage.mk.injEq, Option.some.injEq, true_and] at h
                    exact seenLine_true_ne e' h.1
            | false =>
                cases lastTorn with
                | true => simpa [hNot] using hEvent e'
                | false =>
                    have hRest := hIdle false
                    rw [if_neg Bool.false_ne_true, message_eventFields]
                    simpa [hNot, seenLine, StreamEvent.message] using hRest
          · refine iff_of_false ?_ (by simp [Whole])
            rintro ⟨h, _⟩
            have hLength := congrArg List.length h
            have hLost := length_collect_event (eventFields e false) e' contentTorn lastTorn rest
            rw [hMessages, List.length_cons, List.length_cons] at hLength
            omega
      | keepAlive =>
          have hMessages : frameMessages (⟨.keepAlive, contentTorn, lastTorn⟩ :: rest) = frameMessages rest := rfl
          have hRead : ∀ fields, CutFrame.read fields ⟨.keepAlive, contentTorn, lastTorn⟩ = fields := fun _ => rfl
          refine ⟨fun unfinished => ?_, fun e => ?_⟩
          · have hNot : (if unfinished then Pending.comment else .idle) ≠ .event := by cases unfinished <;> simp
            rw [hMessages, collect, Finished, Whole, hRead]
            cases lastTorn with
            | true => simpa [hNot] using hIdle true
            | false => simpa [FrameFields.empty, FrameFields.message] using hIdle false
          · rw [hMessages, collect, Finished, Whole, hRead]
            cases lastTorn with
            | true => simpa using hEvent e
            | false =>
                have hRest := hIdle false
                rw [if_neg Bool.false_ne_true, message_eventFields]
                simpa [seenLine, StreamEvent.message] using hRest

/-- Between the start of the frames and every event an empty line is whole. -/
def Reachable (frames : List CutFrame) : Prop :=
  ∀ before g after, frames = before ++ g :: after → g.isEvent → ∃ h ∈ before, h.lastTorn = false

/-- No chunk boundary tears the line end of a data line or the last line end of
the text, and between two events some empty line is whole. -/
structure Intact (frames : List CutFrame) : Prop where
  content : ∀ f ∈ frames, f.isEvent → f.contentTorn = false
  last : ∀ f ∈ frames.getLast?, f.lastTorn = false
  between : ∀ before f after, frames = before ++ f :: after → f.isEvent → f.lastTorn = false ∨ Reachable after

/-- The first event is within reach of the start where every frame before it is a comment
and one empty line between them is whole. -/
theorem reachable_cons_iff {f : CutFrame} {rest : List CutFrame} :
    Reachable (f :: rest) ↔ ¬ f.isEvent ∧ (f.lastTorn = false ∨ Reachable rest) := by
  constructor
  · intro h
    refine ⟨fun hEvent => ?_, ?_⟩
    · obtain ⟨g, hg, _⟩ := h [] f rest rfl hEvent
      cases hg
    · by_cases hLast : f.lastTorn = false
      · exact .inl hLast
      · refine .inr fun before g after hSplit hg => ?_
        obtain ⟨k, hk, hWhole⟩ := h (f :: before) g after (by rw [hSplit, List.cons_append]) hg
        rcases List.mem_cons.mp hk with rfl | hk
        · exact absurd hWhole hLast
        · exact ⟨k, hk, hWhole⟩
  · rintro ⟨hEvent, hRest⟩ before g after hSplit hg
    cases before with
    | nil =>
        rw [List.nil_append, List.cons.injEq] at hSplit
        exact absurd (hSplit.1 ▸ hg) hEvent
    | cons k before =>
        rw [List.cons_append, List.cons.injEq] at hSplit
        obtain ⟨rfl, hSplit⟩ := hSplit
        rcases hRest with hWhole | hRest
        · exact ⟨f, List.mem_cons_self, hWhole⟩
        · obtain ⟨k, hk, hWhole⟩ := hRest before g after hSplit hg
          exact ⟨k, List.mem_cons_of_mem _ hk, hWhole⟩

/-- A first frame is intact where its data line is whole and some empty line follows before
the next event, and the rest is intact. -/
theorem intact_cons_iff {f : CutFrame} {rest : List CutFrame} :
    Intact (f :: rest) ↔ (f.isEvent → f.contentTorn = false ∧ (f.lastTorn = false ∨ Reachable rest)) ∧
      (rest = [] → f.lastTorn = false) ∧ Intact rest := by
  constructor
  · rintro ⟨hContent, hLast, hBetween⟩
    refine ⟨fun hEvent => ⟨hContent f List.mem_cons_self hEvent, hBetween [] f rest rfl hEvent⟩, ?_, ?_, ?_, ?_⟩
    · rintro rfl
      exact hLast f rfl
    · exact fun g hg => hContent g (List.mem_cons_of_mem _ hg)
    · intro g hg
      refine hLast g ?_
      cases rest with
      | nil => cases hg
      | cons g' rest => rwa [List.getLast?_cons_cons]
    · intro before g after hSplit
      exact hBetween (f :: before) g after (by rw [hSplit, List.cons_append])
  · rintro ⟨hFirst, hAlone, hContent, hLast, hBetween⟩
    refine ⟨fun g hg hEvent => ?_, fun g hg => ?_, fun before g after hSplit hEvent => ?_⟩
    · rcases List.mem_cons.mp hg with rfl | hg
      · exact (hFirst hEvent).1
      · exact hContent g hg hEvent
    · cases rest with
      | nil =>
          obtain rfl : f = g := by simpa using hg
          exact hAlone rfl
      | cons g' rest =>
          rw [List.getLast?_cons_cons] at hg
          exact hLast g hg
    · cases before with
      | nil =>
          rw [List.nil_append, List.cons.injEq] at hSplit
          obtain ⟨rfl, rfl⟩ := hSplit
          exact (hFirst hEvent).2
      | cons k before =>
          rw [List.cons_append, List.cons.injEq] at hSplit
          exact hBetween before g after hSplit.2 hEvent

/-- Frames are whole from the start exactly when they are intact, and from an open event
only when some empty line comes first. -/
theorem whole_iff {pending : Pending} {frames : List CutFrame} :
    Whole pending frames ↔
      Intact frames ∧ (frames = [] → pending = .idle) ∧ (pending = .event → Reachable frames) := by
  induction frames generalizing pending with
  | nil =>
      have hIntact : Intact [] := ⟨by simp, by simp, by simp⟩
      have hReachable : Reachable [] := by
        intro before g after hSplit
        simp at hSplit
      simp [Whole, hIntact, hReachable]
  | cons f rest ih =>
      obtain ⟨item, contentTorn, lastTorn⟩ := f
      rw [intact_cons_iff, reachable_cons_iff]
      cases item with
      | event e =>
          have hEvent : CutFrame.isEvent ⟨.event e, contentTorn, lastTorn⟩ := rfl
          rw [Whole, ih]
          cases lastTorn <;> simp [hEvent] <;> tauto
      | keepAlive =>
          have hComment : ¬ CutFrame.isEvent ⟨.keepAlive, contentTorn, lastTorn⟩ := Bool.false_ne_true
          rw [Whole, ih]
          cases lastTorn <;> cases pending <;> simp [hComment] <;> tauto

/-- Cutting a stream at its boundaries leaves its items as they are. -/
theorem map_item_cutFrames (torn : Nat → Bool) (n : Nat) (items : List StreamItem) :
    (cutFrames torn n items).map (·.item) = items := by
  induction items generalizing n with
  | nil => rfl
  | cons item items ih => rw [cutFrames, List.map_cons, ih]

/-- What the buffer sees is read as the events exactly when the frames are intact. -/
theorem parse_seam_iff (torn : Nat → Bool) (items : List StreamItem) :
    ((cut '\n' (seam torn 0 (streamText .crlf items))).1.filterMap frameMessage = streamMessages items ∧
      (cut '\n' (seam torn 0 (streamText .crlf items))).2 = []) ↔ Intact (cutFrames torn 0 items) := by
  obtain ⟨hMessages, hRest⟩ := parse_stream torn items 0 [] (by simp)
  have hRead := (collect_eq_iff (cutFrames torn 0 items)).1 false
  rw [frameMessages, map_item_cutFrames] at hRead
  rw [unlines, List.flatMap_nil, List.nil_append] at hMessages hRest
  rw [hMessages, hRest, List.foldl_nil]
  refine hRead.trans (whole_iff.trans ?_)
  simp

/-- Frames without a torn line end are intact. -/
theorem intact_cutFrames_false (n : Nat) (items : List StreamItem) : Intact (cutFrames (fun _ => false) n items) := by
  induction items generalizing n with
  | nil => exact ⟨by simp [cutFrames], by simp [cutFrames], by simp [cutFrames]⟩
  | cons item items ih => exact intact_cons_iff.mpr ⟨fun _ => ⟨rfl, .inl rfl⟩, fun _ => rfl, ih _⟩

/-- Where nothing is torn, lines are seen as they are. -/
theorem seenLines_false (n : Nat) (lines : List Text) : seenLines (fun _ => false) n lines = lines := by
  induction lines generalizing n with
  | nil => rfl
  | cons line lines ih => rw [seenLines, ih, seenLine, if_neg Bool.false_ne_true, List.append_nil]

/-- Shortened everywhere, a CRLF stream is the LF stream. -/
theorem seam_false_streamText (items : List StreamItem) (n : Nat) :
    seam (fun _ => false) n (streamText .crlf items) = streamText .lf items := by
  induction items generalizing n with
  | nil => rfl
  | cons item items ih =>
      have hBreaks : ∀ line ∈ item.lines ++ [[]], '\r' ∉ line := by
        intro line hLine hMem
        rcases List.mem_append.mp hLine with hLine | hLine
        · exact (lines_noBreak item line hLine _ hMem).2 rfl
        · rw [List.mem_singleton.mp hLine] at hMem
          cases hMem
      rw [streamText, List.flatMap_cons, ← streamText, frame_eq_crlfText, seam_crlfText hBreaks, seenLines_false, ih]
      simp [streamText, unlines, StreamItem.frame, LineEnd.chars]

/-- An LF stream has no carriage returns. -/
theorem carriage_notMem_streamText (items : List StreamItem) : '\r' ∉ streamText .lf items := by
  intro hMem
  obtain ⟨item, _, hMem⟩ := List.mem_flatMap.mp hMem
  rcases List.mem_append.mp hMem with hMem | hMem
  · obtain ⟨line, hLine, hMem⟩ := List.mem_flatMap.mp hMem
    rcases List.mem_append.mp hMem with hMem | hMem
    · exact (lines_noBreak item line hLine _ hMem).2 rfl
    · simp [LineEnd.chars] at hMem
  · simp [LineEnd.chars] at hMem

/-- Chunks of an LF stream are always read as its events; chunks of a CRLF stream
exactly when no chunk boundary tears a line end that matters. -/
theorem parseChunks_round_trip_iff {items : List StreamItem} {lineEnd : LineEnd} {chunks : List Text}
    (hText : chunks.flatten = streamText lineEnd items) :
    parseChunks [] chunks = (streamMessages items, []) ↔
      (lineEnd = .crlf → Intact (cutFrames (· ∈ boundaries chunks) 0 items)) := by
  rw [parseChunks_eq chunks rfl, List.nil_append, flatten_normalizeCrlf, hText, Prod.mk.injEq]
  cases lineEnd with
  | crlf =>
      rw [parse_seam_iff]
      simp
  | lf =>
      have hLf : seam (· ∈ boundaries chunks) 0 (streamText .lf items) = streamText .lf items := by
        have hSeam := @seam_append_of_notMem (· ∈ boundaries chunks) _ (carriage_notMem_streamText items) 0 []
        simpa [seam] using hSeam
      rw [hLf, ← seam_false_streamText items 0, parse_seam_iff]
      simp [intact_cutFrames_false]

/-- An event with an empty payload. -/
def sampleEvent : StreamItem := .event ⟨['7'], [], by simp, by simp [isJsWhitespace]⟩

/-- An LF stream cut inside its separator, and a CRLF stream cut inside the empty line
after an event, whose end the empty line after the next keep-alive comment makes good. -/
theorem parseChunks_round_trip_sample :
    parseChunks [] ["id: 7\nevent: simulator.event\ndata: \x7b\x7d\n".toList, [], "\n".toList] =
      (streamMessages [sampleEvent], []) ∧
    parseChunks [] ["id: 7\r\nevent: simulator.event\r\ndata: \x7b\x7d\r\n\r".toList,
        "\n: keep-alive\r\n\r\nid: 7\r\nevent: simulator.event\r\ndata: \x7b\x7d\r\n\r\n".toList] =
      (streamMessages [sampleEvent, .keepAlive, sampleEvent], []) := by
  refine ⟨(@parseChunks_round_trip_iff [sampleEvent] .lf _ ?_).mpr (fun h => by cases h),
    (@parseChunks_round_trip_iff [sampleEvent, .keepAlive, sampleEvent] .crlf _ ?_).mpr fun _ => ?_⟩
  · decide +kernel
  · decide +kernel
  · have hFirst : Reachable [⟨.keepAlive, false, false⟩, ⟨sampleEvent, false, false⟩] :=
      reachable_cons_iff.mpr ⟨by simp [CutFrame.isEvent, StreamItem.event?], .inl rfl⟩
    have hLast : Intact [⟨.keepAlive, false, false⟩, ⟨sampleEvent, false, false⟩] :=
      intact_cutFrames_false 0 [.keepAlive, sampleEvent]
    exact intact_cons_iff.mpr ⟨fun _ => ⟨rfl, .inr hFirst⟩, (fun hNone => absurd hNone (List.cons_ne_nil _ _)), hLast⟩

/-- A CRLF stream cut inside its last line end: the event is never read. -/
theorem parseChunks_torn_crlf :
    ¬ ∀ (items : List StreamItem) (lineEnd : LineEnd) (chunks : List Text),
      chunks.flatten = streamText lineEnd items → parseChunks [] chunks = (streamMessages items, []) := by
  intro h
  have hRead := h [sampleEvent] .crlf
    ["id: 7\r\nevent: simulator.event\r\ndata: \x7b\x7d\r\n\r".toList, "\n".toList] (by decide +kernel)
  revert hRead
  decide +kernel

end RoundTrip

end SseWire
