import AndroidLevelDB.Lib.ByteCodec
import AndroidLevelDB.Lib.Versions
import AndroidLevelDB.Lib.SortedMerge
import AndroidLevelDB.Lib.Outcome
import AndroidLevelDB.Lib.RefCount
import AndroidLevelDB.Lib.Lifetime
import AndroidLevelDB.Lib.ListCursor
import AndroidLevelDB.Lib.Deferred
import AndroidLevelDB.Lib.Updates
import AndroidLevelDB.Lib.Crc
import AndroidLevelDB.Leveldb.Slice
import AndroidLevelDB.Leveldb.Coding
import AndroidLevelDB.Leveldb.Status
import AndroidLevelDB.Leveldb.DbFormat
import AndroidLevelDB.Leveldb.Iterator
import AndroidLevelDB.Leveldb.Merger
import AndroidLevelDB.Leveldb.InternalIterator
import AndroidLevelDB.Leveldb.DbIter
import AndroidLevelDB.Leveldb.DbIterCursor
import AndroidLevelDB.Leveldb.WriteBatch
import AndroidLevelDB.Leveldb.DbImpl
import AndroidLevelDB.Leveldb.DbWrite
import AndroidLevelDB.Leveldb.Open
import AndroidLevelDB.Leveldb.Env
import AndroidLevelDB.Leveldb.Crc32c
import AndroidLevelDB.Leveldb.LogWriter
import AndroidLevelDB.Leveldb.LogReader
import AndroidLevelDB.Leveldb.LogRecords
import AndroidLevelDB.Leveldb.History
import AndroidLevelDB.Leveldb.Recovery
import AndroidLevelDB.Leveldb.LoggedDb
import AndroidLevelDB.Leveldb.Durability
import AndroidLevelDB.Leveldb.Files
import AndroidLevelDB.Leveldb.Compaction
import AndroidLevelDB.Leveldb.CompactionWork
import AndroidLevelDB.Leveldb.PickCompaction
import AndroidLevelDB.Leveldb.VersionEdit
import AndroidLevelDB.Leveldb.VersionBuilder
import AndroidLevelDB.Leveldb.VersionSet
import AndroidLevelDB.Leveldb.LeveledDb
import AndroidLevelDB.Leveldb.Levels
import AndroidLevelDB.Leveldb.LevelInvariant
import AndroidLevelDB.Leveldb.CompactionResults
import AndroidLevelDB.Leveldb.LevelCompaction
import AndroidLevelDB.Leveldb.LevelRuns
import AndroidLevelDB.Jni.LeveldbJni
import AndroidLevelDB.Jni.ByteBuffer
import AndroidLevelDB.Jni.Native
import AndroidLevelDB.Jni.Natives
import AndroidLevelDB.Jni.Lookup
import AndroidLevelDB.Jni.Durability
import AndroidLevelDB.Jni.Levels
import AndroidLevelDB.Jni.ReadErrors
import AndroidLevelDB.Jni.BatchWrites
import AndroidLevelDB.Jni.Marshalling
import AndroidLevelDB.Jni.Lifetimes
import AndroidLevelDB.Jni.Exceptions
import AndroidLevelDB.Jni.DataCalls
import AndroidLevelDB.Java.NativeObject
import AndroidLevelDB.Java.Classes
import AndroidLevelDB.Java.Ownership
import AndroidLevelDB.Java.Acquisition
import AndroidLevelDB.Java.Release
import AndroidLevelDB.Java.Cursor
import AndroidLevelDB.Java.Opening
import AndroidLevelDB.Java.Arguments
import AndroidLevelDB.Java.Creation
import AndroidLevelDB.Java.Methods
import AndroidLevelDB.Java.Runs
import AndroidLevelDB.Java.Frames
import AndroidLevelDB.Java.Holders
import AndroidLevelDB.Java.Teardown
import AndroidLevelDB.Java.Reopening
import AndroidLevelDB.Java.Terminal
import AndroidLevelDB.Java.Exceptions
import AndroidLevelDB.Java.Failure
import AndroidLevelDB.Java.LastRelease
import AndroidLevelDB.Java.Destroy
