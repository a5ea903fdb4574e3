import RetroArch.Cheats.Applied
import RetroArch.Cheats.Fitting
import RetroArch.Cheevos.Fixup
import RetroArch.Cheevos.MmapInverse
import RetroArch.Cheevos.Passes
import RetroArch.Encodings.Utf8cpy
import RetroArch.File.ArchiveHash
import RetroArch.File.ArchiveList
import RetroArch.File.Comment
import RetroArch.File.RealPath
import RetroArch.File.Reload
import RetroArch.Formats.JsonGrammar
import RetroArch.Formats.Rxml
import RetroArch.Input.ButtonMask
import RetroArch.Input.MapperBounds
import RetroArch.Input.Remapped
import RetroArch.LibretroDb.Bintree
import RetroArch.LibretroDb.Index
import RetroArch.LibretroDb.QueryFilter
import RetroArch.LibretroDb.QueryParsing
import RetroArch.LibretroDb.Termination
import RetroArch.LibretroDb.Validation
import RetroArch.Movie.Position
import RetroArch.Movie.Replay
import RetroArch.Net.Connection
import RetroArch.Net.HttpDelivery
import RetroArch.Netplay.Alignment
import RetroArch.Netplay.Boundary
import RetroArch.Netplay.InputWire
import RetroArch.Netplay.Merging
import RetroArch.Netplay.Nicknames
import RetroArch.Netplay.Play
import RetroArch.Netplay.Recv
import RetroArch.Netplay.Rooms
import RetroArch.Netplay.Send
import RetroArch.Netplay.Settling
import RetroArch.Netplay.Waiting
import RetroArch.Playlist.PushFront
import RetroArch.Playlist.Sorting
import RetroArch.Png.Interlaced
import RetroArch.Png.RoundTrip
import RetroArch.Png.Safety
import RetroArch.Queues.Fifo
import RetroArch.Queues.OneBlocking
import RetroArch.Queues.PriorityOrder
import RetroArch.Rewind.FindChange
import RetroArch.Rewind.Links
import RetroArch.Rewind.Portable
import RetroArch.RunAhead.Ahead
import RetroArch.Tasks.BpsVerified
import RetroArch.Tasks.CueSheet
import RetroArch.Tasks.IpsDefined
import RetroArch.Tasks.PatchNumbers
import RetroArch.Tasks.SaveStateRuns
import RetroArch.Tasks.UndoStateRuns
import RetroArch.Tasks.UpsEnding
import RetroArch.Tasks.UpsLimits
import RetroArch.Text.WordWrap
import RetroArch.Vfs.Backends
