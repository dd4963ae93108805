import PubSub.Codec
import PubSub.Wire

/- A stream of frames cut into arbitrary chunks is read back item by item. Every run of the
   loop stays between the same two halves of the stream: the frames it has yielded, and the
   undecoded bytes, which begin what is still to come. -/
namespace PubSub
open LabelledRun StreamParsing MsgPackCodec
variable {T : Type}

/-- What is assumed of a reader and a serializer of one type: every value that can be sent is
    read back. The message pack library does so but for values nested very deep and strings that
    are not UTF-8. -/
structure ReadsBack (fromRead : Parser UInt8 DecodeError T) (serialize : T → Except String Bytes) :
    Prop where
  whole : ∀ x frame, serialize x = .ok frame → Reads fromRead frame x
  cut : ∀ x front missing, serialize x = .ok (front ++ missing) → missing ≠ [] →
    Unfinished fromRead front
  nothing : Unfinished fromRead []

section Frames
variable {fromRead : Parser UInt8 DecodeError T} {serialize : T → Except String Bytes}
  (law : ReadsBack fromRead serialize)
include law

theorem decode_begun {xs : List T} {frames : List Bytes} {src : Bytes}
    (sent : SentAs serialize xs frames) (begun : src <+: frames.flatten) :
    (decode fromRead src = (.ok none, src) ∧ (src = frames.flatten → xs = [])) ∨
    ∃ x rest frame later left, xs = x :: rest ∧ frames = frame :: later ∧
      serialize x = .ok frame ∧ SentAs serialize rest later ∧ src = frame ++ left ∧
      decode fromRead src = (.ok (some x), left) ∧ left <+: later.flatten := by
  cases sent with
  | nil =>
    obtain rfl := List.prefix_nil.mp begun
    exact Or.inl ⟨decode_unfinished law.nothing, fun _ => rfl⟩
  | @cons x frame rest later first others =>
    rw [List.flatten_cons] at begun
    have whole : ∀ left, src = frame ++ left → left <+: later.flatten →
        ∃ x' rest' frame' later' left', x :: rest = x' :: rest' ∧ frame :: later = frame' :: later' ∧
          serialize x' = .ok frame' ∧ SentAs serialize rest' later' ∧ src = frame' ++ left' ∧
          decode fromRead src = (.ok (some x'), left') ∧ left' <+: later'.flatten := by
      rintro left rfl inside
      exact ⟨x, rest, frame, later, left, rfl, rfl, first, others, rfl,
        decode_frame (law.whole _ _ first _), inside⟩
    rcases List.prefix_or_prefix_of_prefix begun (List.prefix_append frame _) with
      ⟨missing, within⟩ | ⟨left, rfl⟩
    · by_cases complete : missing = []
      · rw [complete, List.append_nil] at within
        exact Or.inr (whole [] (by rw [within, List.append_nil]) List.nil_prefix)
      · refine Or.inl ⟨decode_unfinished (law.cut x src missing (within ▸ first) complete), ?_⟩
        intro all
        have longer := congrArg List.length within
        have same := congrArg List.length all
        have some_missing := List.length_pos_iff.mpr complete
        simp only [List.length_append, List.flatten_cons] at longer same
        omega
    · exact Or.inr (whole left rfl ((List.prefix_append_right_inj frame).mp begun))

end Frames

/-- The stream falls into the frames of the items yielded, which have arrived, and those of the
    rest, which the buffer begins. -/
def Halves (serialize : T → Except String Bytes) (xs : List T) (stream : Bytes)
    (out : List T) (arrived src : Bytes) : Prop :=
  ∃ rest done later, xs = out ++ rest ∧ SentAs serialize out done ∧ SentAs serialize rest later ∧
    stream = done.flatten ++ later.flatten ∧ done.flatten ++ src = arrived ∧ src <+: later.flatten

theorem Halves.arrive {serialize : T → Except String Bytes} {xs out : List T}
    {stream arrived src : Bytes} (halves : Halves serialize xs stream out arrived src) (bytes : Bytes)
    (within : arrived ++ bytes <+: stream) :
    Halves serialize xs stream out (arrived ++ bytes) (src ++ bytes) := by
  obtain ⟨rest, done, later, split, before, after, whole, rfl, begun⟩ := halves
  rw [List.append_assoc, whole] at within
  exact ⟨rest, done, later, split, before, after, whole, (List.append_assoc _ _ _).symm,
    (List.prefix_append_right_inj _).mp within⟩

theorem Halves.decoded {fromRead : Parser UInt8 DecodeError T} {serialize : T → Except String Bytes}
    (law : ReadsBack fromRead serialize) {xs out : List T} {stream arrived src : Bytes}
    (halves : Halves serialize xs stream out arrived src) :
    decode fromRead src = (.ok none, src) ∨
      ∃ x left, decode fromRead src = (.ok (some x), left) ∧
        Halves serialize xs stream (out ++ [x]) arrived left := by
  obtain ⟨rest, done, later, split, before, after, whole, place, begun⟩ := halves
  rcases decode_begun law after begun with ⟨waits, -⟩ |
    ⟨x, rest, frame, later, left, rfl, rfl, first, others, rfl, yields, inside⟩
  · exact Or.inl waits
  · refine Or.inr ⟨x, left, yields, rest, done ++ [frame], later, ?_, ?_, others, ?_, ?_, inside⟩
    · rw [split]
      simp
    · exact List.rel_append before (List.Forall₂.cons first List.Forall₂.nil)
    · rw [whole]
      simp
    · rw [← place]
      simp

structure Reading (fromRead : Parser UInt8 DecodeError T) (serialize : T → Except String Bytes)
    (xs : List T) (stream : Bytes) (ls : List (ReadEvent T)) (d : ReadLoop) : Prop where
  noError : ∀ e, ReadEvent.failed e ∉ ls
  opened : d.phase ≠ .closed
  halves : Halves serialize xs stream (yielded ls) (fed ls).flatten d.src
  starved : d.phase = .waiting → decode fromRead d.src = (.ok none, d.src)
  counted : ls.length + (if d.phase = .reading then 1 else 0) = 2 * (fed ls).length + (yielded ls).length

theorem chunks_begin {ls : List (ReadEvent T)} {chunks : List Bytes} {stream : Bytes}
    (cut : chunks.flatten = stream) (within : fed ls <+: chunks) : (fed ls).flatten <+: stream := by
  obtain ⟨others, rfl⟩ := within
  rw [← cut, List.flatten_append]
  exact List.prefix_append _ _

section Runs
variable {fromRead : Parser UInt8 DecodeError T} {serialize : T → Except String Bytes}
  {xs : List T} {stream : Bytes}

theorem reading_extends {ls : List (ReadEvent T)} {d : ReadLoop} {chunks : List Bytes}
    (reading : Reading fromRead serialize xs stream ls d) (within : fed ls <+: chunks)
    (unfinished : ¬(fed ls = chunks ∧ d.phase = .waiting)) :
    ∃ l d', ReadStep fromRead d l d' ∧ fed (ls ++ [l]) <+: chunks := by
  obtain ⟨src, phase⟩ := d
  cases phase with
  | closed => exact absurd rfl reading.opened
  | reading =>
    obtain ⟨l, d', step, quiet⟩ := reading_goes_on fromRead src
    refine ⟨l, d', step, ?_⟩
    rw [fed_snoc, quiet]
    simpa using within
  | waiting =>
    obtain ⟨others, rfl⟩ := within
    cases others with
    | nil => exact absurd ⟨(List.append_nil _).symm, rfl⟩ unfinished
    | cons bytes others =>
      refine ⟨.chunk bytes, _, ReadStep.chunk src bytes, ?_⟩
      rw [fed_snoc]
      exact ⟨others, by simp [ReadEvent.fed]⟩

theorem reading_bounded {ls : List (ReadEvent T)} {d : ReadLoop} {chunks : List Bytes}
    (reading : Reading fromRead serialize xs stream ls d) (within : fed ls <+: chunks) :
    ls.length ≤ 2 * chunks.length + xs.length := by
  obtain ⟨rest, done, later, split, -⟩ := reading.halves
  have total := congrArg List.length split
  have fewer := within.length_le
  have counted := reading.counted
  rw [List.length_append] at total
  omega

variable (law : ReadsBack fromRead serialize)
include law

theorem reading_start (sent : encodeAll serialize xs [] = (.ok (), stream)) :
    Reading fromRead serialize xs stream [] .start := by
  obtain ⟨frames, each, rfl⟩ := (encodeAll_iff serialize xs [] stream).mp sent
  constructor
  · exact fun e => List.not_mem_nil
  · exact nofun
  · exact ⟨xs, [], frames, rfl, List.Forall₂.nil, each, rfl, rfl, List.nil_prefix⟩
  · exact fun _ => decode_unfinished law.nothing
  · rfl

theorem reading_step {ls : List (ReadEvent T)} {d d' : ReadLoop} {l : ReadEvent T}
    (reading : Reading fromRead serialize xs stream ls d) (step : ReadStep fromRead d l d')
    (within : (fed (ls ++ [l])).flatten <+: stream) :
    Reading fromRead serialize xs stream (ls ++ [l]) d' := by
  obtain ⟨noError, opened, halves, starved, counted⟩ := reading
  have onDecode := halves.decoded law
  rw [fed_snoc, List.flatten_append] at within
  cases step with
  | chunk src bytes =>
    constructor
    · simpa using noError
    · exact nofun
    · rw [fed_snoc, yielded_snoc, List.flatten_append]
      simpa [ReadEvent.fed, ReadEvent.yielded] using halves.arrive _ within
    · exact nofun
    · rw [fed_snoc, yielded_snoc]
      simp [ReadEvent.fed, ReadEvent.yielded] at counted ⊢
      omega
  | @item src left x read =>
    rcases onDecode with waits | ⟨y, rest, yields, further⟩
    · rw [waits] at read
      cases read
    · rw [yields] at read
      obtain ⟨same, rfl⟩ := Prod.mk.inj read
      obtain rfl := Option.some.inj (Except.ok.inj same)
      constructor
      · simpa using noError
      · exact nofun
      · rw [fed_snoc, yielded_snoc, List.flatten_append]
        simpa [ReadEvent.fed, ReadEvent.yielded] using further
      · exact nofun
      · rw [fed_snoc, yielded_snoc]
        simp [ReadEvent.fed, ReadEvent.yielded] at counted ⊢
        omega
  | @idle src left read =>
    rcases onDecode with waits | ⟨y, rest, yields, -⟩
    · rw [waits] at read
      obtain ⟨-, rfl⟩ := Prod.mk.inj read
      constructor
      · simpa using noError
      · exact nofun
      · rw [fed_snoc, yielded_snoc, List.flatten_append]
        simpa [ReadEvent.fed, ReadEvent.yielded] using halves
      · exact fun _ => waits
      · rw [fed_snoc, yielded_snoc]
        simp [ReadEvent.fed, ReadEvent.yielded] at counted ⊢
        omega
    · rw [yields] at read
      cases read
  | failed read =>
    rcases onDecode with waits | ⟨y, rest, yields, -⟩
    · rw [waits] at read
      cases read
    · rw [yields] at read
      cases read

theorem reading_run (sent : encodeAll serialize xs [] = (.ok (), stream)) {ls : List (ReadEvent T)}
    {d : ReadLoop} (run : ReadRun fromRead .start ls d) (within : (fed ls).flatten <+: stream) :
    Reading fromRead serialize xs stream ls d := by
  refine run_history (fun ls d => (fed ls).flatten <+: stream → Reading fromRead serialize xs stream ls d)
    (fun _ => reading_start law sent) ?_ run within
  intro ls d l d' before ih step within
  apply reading_step law (ih ?_) step within
  rw [fed_snoc, List.flatten_append] at within
  exact (List.prefix_append _ _).trans within

theorem reading_complete {ls : List (ReadEvent T)} {d : ReadLoop}
    (reading : Reading fromRead serialize xs stream ls d) (all : (fed ls).flatten = stream)
    (waiting : d.phase = .waiting) : yielded ls = xs ∧ d.src = [] := by
  obtain ⟨rest, done, later, split, before, after, whole, place, begun⟩ := reading.halves
  have last : d.src = later.flatten := by
    rw [all, whole] at place
    exact List.append_cancel_left place
  rcases decode_begun law after begun with ⟨-, finished⟩ |
    ⟨y, rest, frame, later, left, rfl, rfl, first, others, cut, yields, inside⟩
  · obtain rfl := finished last
    cases after
    rw [List.append_nil] at split
    exact ⟨split.symm, last⟩
  · rw [reading.starved waiting] at yields
    cases yields

theorem reading_finishes (sent : encodeAll serialize xs [] = (.ok (), stream)) {chunks : List Bytes}
    (cut : chunks.flatten = stream) (budget : Nat) {ls : List (ReadEvent T)} {d : ReadLoop}
    (run : ReadRun fromRead .start ls d) (within : fed ls <+: chunks)
    (enough : 2 * chunks.length + xs.length < ls.length + budget) :
    ∃ ms t, ReadRun fromRead .start (ls ++ ms) t ∧ fed (ls ++ ms) = chunks ∧ t.phase = .waiting := by
  induction budget generalizing ls d with
  | zero =>
    have short := reading_bounded (reading_run law sent run (chunks_begin cut within)) within
    omega
  | succ budget ih =>
    by_cases finished : fed ls = chunks ∧ d.phase = .waiting
    · rw [← List.append_nil ls] at run
      exact ⟨[], d, run, by rw [List.append_nil]; exact finished.1, finished.2⟩
    · have reading := reading_run law sent run (chunks_begin cut within)
      obtain ⟨l, d', step, further⟩ := reading_extends reading within finished
      have longer : 2 * chunks.length + xs.length < (ls ++ [l]).length + budget := by
        rw [List.length_append, List.length_singleton]
        omega
      obtain ⟨ms, t, onward, all, waiting⟩ := ih (Run.snoc run step) further longer
      rw [List.append_assoc] at onward all
      exact ⟨l :: ms, t, onward, all, waiting⟩

/-- Decoding undoes encoding however the stream is cut: no run fails, what has been yielded and
    the buffer make up what has arrived, and every run ends with all the items and no bytes. -/
theorem decoded_as_sent (sent : encodeAll serialize xs [] = (.ok (), stream)) (chunks : List Bytes)
    (cut : chunks.flatten = stream) (ls : List (ReadEvent T)) (d : ReadLoop)
    (run : ReadRun fromRead .start ls d) (within : fed ls <+: chunks) :
    (∀ e, ReadEvent.failed e ∉ ls) ∧ yielded ls <+: xs ∧
    (∃ read, encodeAll serialize (yielded ls) [] = (.ok (), read) ∧
      read ++ d.src = (fed ls).flatten) ∧
    (fed ls = chunks → d.phase = .waiting → yielded ls = xs ∧ d.src = []) ∧
    ls.length ≤ 2 * chunks.length + xs.length ∧
    ∃ ms, ReadRun fromRead .start (ls ++ ms) ⟨[], .waiting⟩ ∧ fed (ls ++ ms) = chunks ∧
      yielded (ls ++ ms) = xs := by
  have reading := reading_run law sent run (chunks_begin cut within)
  obtain ⟨rest, done, later, split, before, -, -, place, -⟩ := reading.halves
  refine ⟨reading.noError, ⟨rest, split.symm⟩, ?_, ?_, reading_bounded reading within, ?_⟩
  · exact ⟨done.flatten, (encodeAll_iff _ _ _ _).mpr ⟨done, before, rfl⟩, place⟩
  · intro all waiting
    exact reading_complete law reading (by rw [all, cut]) waiting
  · obtain ⟨ms, ⟨src, phase⟩, onward, all, waiting⟩ := reading_finishes law sent cut
      (2 * chunks.length + xs.length + 1) run within (by omega)
    have same : (fed (ls ++ ms)).flatten = stream := by rw [all, cut]
    have final := reading_run law sent onward (same ▸ List.prefix_refl _)
    obtain ⟨everything, rfl⟩ := reading_complete law final same waiting
    obtain rfl : phase = .waiting := waiting
    exact ⟨ms, onward, all, everything⟩

end Runs

theorem readsBack_command : ReadsBack Wire.readCommand Wire.packCommand := by
  constructor
  · exact fun command frame sent => Wire.reads_readCommand sent
  · intro command front missing sent cut
    have frame := reads_isFrame (Wire.reads_readCommand sent)
    exact ranOut_unfinished (cut_frame_runs_out Wire.incremental_readCommand frame cut)
  · exact ⟨.invalidMarkerRead "end of file", [], rfl, nofun⟩

def twoCommands : List (Command UInt8) := [.subscribe ['a'], .publish ⟨['a'], 7⟩]

def threeChunks : List Bytes :=
  [[0x81, 0xA9, 83, 117, 98], [],
   [115, 99, 114, 105, 98, 101, 0x91, 0xA1, 97,
    0x81, 0xA7, 80, 117, 98, 108, 105, 115, 104, 0x91, 0x92, 0xA1, 97, 7]]

theorem two_commands_decoded :
    encodeAll Wire.packCommand twoCommands [] = (.ok (), threeChunks.flatten) ∧
    ∃ ms, ReadRun Wire.readCommand .start (.chunk [0x81, 0xA9, 83, 117, 98] :: ms) ⟨[], .waiting⟩ ∧
      fed (.chunk [0x81, 0xA9, 83, 117, 98] :: ms) = threeChunks ∧
      yielded (.chunk [0x81, 0xA9, 83, 117, 98] :: ms) = twoCommands := by
  have sent : encodeAll Wire.packCommand twoCommands [] = (.ok (), threeChunks.flatten) := by decide
  have fedFirst : ReadRun Wire.readCommand .start [.chunk [0x81, 0xA9, 83, 117, 98]] _ :=
    run_single (ReadStep.chunk [] _)
  obtain ⟨-, -, -, -, -, rest⟩ := decoded_as_sent readsBack_command sent threeChunks rfl
    [.chunk [0x81, 0xA9, 83, 117, 98]] _ fedFirst (by decide)
  exact ⟨sent, rest⟩

end PubSub
