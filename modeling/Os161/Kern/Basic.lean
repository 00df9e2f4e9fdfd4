import Os161.Lib.Words

/-! # Error codes and memory -/

namespace Os161

inductive Errno where
  | EINVAL | EFAULT | ENAMETOOLONG | ENOMEM | EIO | ENOENT | ENOTDIR | EISDIR | EEXIST | EXDEV
  | EAGAIN | ESPIPE | EUNIMP | ENXIO | ENODEV | EBUSY | EIOCTL | ENOTEMPTY | ERANGE | ENOSPC
  | EMFILE | ENFILE | ENOSYS | ENOEXEC | E2BIG | EBADF
  deriving DecidableEq, Repr

/-- Where the file system stops the machine: its calls of `panic` and its assertions. -/
inductive Panic where
  | uiomove_size | uiomovezeros_rw
  | d_io_EINVAL
  | bitmap_alloc | bitmap_unmark
  | balloc_invalid | bused_range | bmap_marked_free
  | partialio_len | partialio_rw | blockio_rw | blockio_resid
  /-- Not an assertion: a move to or from memory outside the buffer of `sfs_partialio`. -/
  | iobuf_bounds
  | io_extraresid | io_unaligned | io_resid | read_rw | write_rw
  | readdir_short | writedir_short | nentries_type | nentries_size
  | findname_found | lookonce_linkcount
  | reclaim_refcount | reclaim_not_in_pool
  | remove_linkcount | rename_root | rename_type | rename_linkcount | rename_recover
  | loadvnode_found_unallocated | loadvnode_unallocated | loadvnode_forcetype | loadvnode_type_set
  | loadvnode_type | getroot
  | vnode_kill | vnode_decref | vnode_decopen | vnode_check | vnode_freed
  deriving DecidableEq, Repr

abbrev Heap := List Bool

abbrev Alloc (α : Type) := Heap → α × Heap

/-- `kmalloc`, true if it does not return NULL. -/
def kmalloc : Alloc Bool
  | [] => (true, [])
  | ok :: rest => (ok, rest)

def DIVROUNDUP (a b : Nat) : Nat := (a + b - 1) % 2 ^ 32 / b

end Os161
