import MicroCisc.Text.Blank

namespace MicroCisc.Text

-- The last part of a path that names something, unless it is the way up.
def fileName? (path : List Char) : Option (List Char) :=
  let parts := (pieces (· == '/') path).filter fun part => part != [] && part != ['.']
  parts.getLast?.filter (· != ['.', '.'])

-- What follows the last dot of a file's name, unless the dot is the first character of the name.
def extension? (path : List Char) : Option (List Char) := do
  let name ← fileName? path
  let cut := pieces (· == '.') name
  let last ← cut.getLast?
  if cut.dropLast matches [] | [[]] then none else some last

end MicroCisc.Text
