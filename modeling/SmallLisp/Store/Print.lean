import SmallLisp.Store.Basic

/-!
The texts of frames: one frame for itself, with a mark that it has an outer one, or the chain of
frames from one outwards, in which the global frame is only named.
-/

namespace SmallLisp

/-- The bindings of a frame. -/
def Frame.bindingsText (f : Frame) : String :=
  "\x7b" ++ ", ".intercalate (f.bindings.map fun b => b.1.plain ++ ": " ++ b.2.inspect) ++ "\x7d"

/-- Whether every name and value of a frame has a text. -/
def Frame.fits (f : Frame) : Bool := f.bindings.all fun b => b.1.fits && b.2.fits

namespace Store

/-- The frames from `f` outwards. -/
def chain (s : Store) (f : FrameId) : List Frame :=
  match s.frames[f]? with
  | none => []
  | some frame =>
    match frame.outer with
    | some g => if g < f then frame :: s.chain g else [frame]
    | none => [frame]
termination_by f

/-- The text of one frame. -/
def frameText (s : Store) (f : FrameId) : Except Failure String :=
  match s.frames[f]? with
  | none => .error (.fault .noElement)
  | some frame =>
    if frame.fits then
      .ok (frame.bindingsText ++ if frame.outer.isSome then " -> ..." else "")
    else .error (.fault .numeralTooLong)

/-- The text of a chain of frames, of which the first is shown also when it is the global one. -/
def chainText (s : Store) (f : FrameId) : Except Failure String :=
  match s.chain f with
  | [] => .error (.fault .noElement)
  | first :: rest =>
    let shown := first :: rest.filter (·.outer.isSome)
    if shown.all Frame.fits then
      let outside := rest.map fun frame =>
        if frame.outer.isSome then frame.bindingsText else "<global>"
      .ok ("<Environment chain: " ++ " -> ".intercalate (first.bindingsText :: outside) ++ ">")
    else .error (.fault .numeralTooLong)

end Store

end SmallLisp
