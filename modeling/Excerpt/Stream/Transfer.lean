import Excerpt.Extraction
import Excerpt.Stream.Basic

/-!
This module contains the extraction from a whole stream: line after line is read, and every complete record is
written as one text with a line feed. Line by line it is a machine with the record reader as its state, so what is
written depends on the lines read so far and on nothing else.
-/

namespace Excerpt

inductive Stop
  | malformed (e : LineError)
  | unknownMode (name : Text)
  | readFailed (kind : ReadFault)
  | writeFailed (kind : WriteFault)
  deriving DecidableEq, Repr

def Stop.ofExtraction (line : Nat) : ExtractionError → Stop
  | .record e => .malformed ⟨line, e⟩
  | .unknownMode name => .unknownMode name

structure Transfer where
  writes : List Text
  stop : Option Stop
  source : Source
  sink : Sink
  deriving DecidableEq, Repr

namespace Extraction

/--
Takes one raw line without its terminator. In field mode it may complete a record; in the other modes every line
gives a text of its own.
-/
def feed (x : Extraction) (reader : Reader) (line : Bytes) : Except Stop (Reader × Option Text) :=
  match x.mode with
  | .fields delimiter =>
    match reader.feed delimiter (Utf8.decode line) with
    | .error e => .error (.malformed e)
    | .ok (reader, record) =>
      .ok (reader, record.map fun record => selectFields delimiter x.selection record.fields)
  | _ =>
    match x.ofBytes line with
    -- Outside of field mode no record is looked for, so this is a mode that is not known.
    | .error e => .error (.ofExtraction (reader.lineCount + 1) e)
    | .ok text => .ok (reader, some text)

def transfer (x : Extraction) (source : Source) (sink : Sink) : Transfer :=
  go {} source.lines source.fault sink
where
  go (reader : Reader) (lines : List Bytes) (fault : Option (Fault ReadFault)) (sink : Sink) : Transfer :=
    match Fault.attempt fault with
    | .error kind => ⟨[], some (.readFailed kind), ⟨lines, fault⟩, sink⟩
    | .ok fault =>
      match lines with
      | [] => ⟨[], reader.close.map .malformed, ⟨[], fault⟩, sink⟩
      | line :: lines =>
        match x.feed reader (Line.chomp line) with
        | .error stop => ⟨[], some stop, ⟨lines, fault⟩, sink⟩
        | .ok (reader, none) => go reader lines fault sink
        | .ok (reader, some text) =>
          match Fault.attempt sink.fault with
          | .error kind => ⟨[], some (.writeFailed kind), ⟨lines, fault⟩, sink⟩
          | .ok room =>
            let rest := go reader lines fault ⟨room⟩
            { rest with writes := (text ++ ['\n']) :: rest.writes }

theorem lines_go_isSuffix {x : Extraction} {reader : Reader} {lines : List Bytes} {fault : Option (Fault ReadFault)}
    {sink : Sink} : (transfer.go x reader lines fault sink).source.lines <:+ lines := by
  fun_induction transfer.go x reader lines fault sink with
  | case1 lines reader fault sink kind _ => exact List.suffix_refl lines
  | case2 reader fault sink ahead _ => exact List.suffix_refl []
  | case3 reader fault sink ahead _ line lines stop _ => exact List.suffix_cons line lines
  | case4 reader fault sink ahead _ line lines next _ ih => exact ih.trans (List.suffix_cons line lines)
  | case5 reader fault sink ahead _ line lines next text _ kind _ => exact List.suffix_cons line lines
  | case6 reader fault sink ahead _ line lines next text _ room _ rest ih =>
    exact ih.trans (List.suffix_cons line lines)

/--
However a transfer ends, some bytes at the front of the source have been read and the others are left as they were.
-/
theorem exists_read (x : Extraction) (source : Source) (sink : Sink) :
    ∃ read, read ++ (x.transfer source sink).source.lines.flatten = source.lines.flatten
      ∧ read.length + (x.transfer source sink).source.size = source.size := by
  obtain ⟨front, hfront⟩ : (x.transfer source sink).source.lines <:+ source.lines := lines_go_isSuffix
  have hread : front.flatten ++ (x.transfer source sink).source.lines.flatten = source.lines.flatten := by
    rw [← List.flatten_append, hfront]
  refine ⟨front.flatten, hread, ?_⟩
  rw [Source.size, Source.size, ← hread, List.length_append]

end Extraction

end Excerpt
