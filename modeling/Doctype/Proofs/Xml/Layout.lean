import Doctype.Xml.Document

/-!
The written form of tags as a function of the layout in front of them (`Xml.render`). A list of
tags is written in parts (`Xml.render_append`).
-/

namespace Doctype.Xml

def render : Layout → List Tag → Text
  | _, [] => []
  | l, tag :: tags => (l.place tag).1 ++ render (l.place tag).2 tags

def Layout.after (l : Layout) (tags : List Tag) : Layout :=
  tags.foldl (fun l tag => (l.place tag).2) l

@[simp] theorem render_nil (l : Layout) : render l [] = [] := rfl

@[simp] theorem render_cons (l : Layout) (tag : Tag) (tags : List Tag) :
    render l (tag :: tags) = (l.place tag).1 ++ render (l.place tag).2 tags := rfl

theorem render_append (l : Layout) (tags tags' : List Tag) :
    render l (tags ++ tags') = render l tags ++ render (l.after tags) tags' := by
  induction tags generalizing l with
  | nil => rfl
  | cons tag tags ih => simp [ih, Layout.after]

theorem flatten_chunksFrom (done : List Text) (l : Layout) (tags : List Tag) :
    (chunksFrom done l tags).flatten = done.reverse.flatten ++ render l tags := by
  induction tags generalizing done l with
  | nil => simp [chunksFrom]
  | cons tag tags ih => simp [chunksFrom, ih]

theorem flatten_chunks (tags : List Tag) : (chunks tags).flatten = render .initial tags :=
  flatten_chunksFrom [] .initial tags

theorem print_eq_render (tags : List Tag) : print tags = render .initial tags ++ ['\n'] := by
  rw [print, flatten_chunks]

end Doctype.Xml
